import Mathlib.Logic.Relation
import TypedLoader.Proofs.Analysis.Links
import TypedLoader.Proofs.FileStore

namespace TypedLoader.Analysis

theorem key_eq_files_key {d : Dependencies} {files : FileStore} (h : d.case = files.case)
    (p : Path) : d.key p = files.key p := by
  rw [Dependencies.key, h, FileStore.key]

namespace Walk

open Relation (ReflTransGen)

def site (w : World) (options : Json.Object) (k : Walk) (files : FileStore) (file : Path) :
    Site where
  world := w
  options := options
  file := file
  valid p := isValid k.marks (files.key p)
  stored := files.has

inductive Loads (w : World) (files : FileStore) (file : Path) : String → FileStore → Prop
  | stored {source : SourceFile} (h : files.get? file = some source) :
      Loads w files file source.text files
  | read {text : String} (h : files.get? file = none) (hr : w.files.read file = .ok text) :
      Loads w files file text (files.add file text)

/-- A file has been visited, and its links recorded as far as its citations
could be resolved. -/
structure Visits (w : World) (options : Json.Object) (k : Walk) (file : Path) (text : String)
    (k' : Walk) (new : List Edge) (added : List Path) : Prop where
  loads : Loads w k.files file text k'.files
  marks : k'.marks = k.marks
  analyzed : k'.analyzed = k.analyzed
  deps : k'.deps = ((Links.linkAll (site w options k k'.files file) (w.compiler.scan text)).run
    ⟨k.deps.clear file, k.queue⟩).state.deps
  links : Extends (site w options k k'.files file) ⟨k.deps.clear file, k.queue⟩
    ⟨k'.deps, k'.queue⟩ new added
  cited : ∀ e ∈ new, ∃ c ∈ citations (w.compiler.scan text),
    (site w options k k'.files file).edge? c = some e

def Cited (w : World) (options : Json.Object) (e : Edge) : Prop :=
  ∃ s : Site, s.world = w ∧ s.options = options ∧
    ∃ text, ∃ c ∈ citations (w.compiler.scan text), s.edge? c = some e

theorem Visits.cited_of_mem {w : World} {options : Json.Object} {k k' : Walk} {file : Path}
    {text : String} {new : List Edge} {added : List Path}
    (h : Visits w options k file text k' new added) {e : Edge} (he : e ∈ new) : Cited w options e :=
  ⟨_, rfl, rfl, text, h.cited e he⟩

theorem visit_cases (w : World) (options : Json.Object) (k : Walk) (file : Path) :
    (∃ cause calls, k.files.get? file = none ∧ w.files.read file = .error cause ∧
      visit w options k file =
        ⟨.error (.unreadable file cause), { k with deps := k.deps.clear file }, calls⟩) ∨
    ∃ text k' calls new added, Visits w options k file text k' new added ∧
      ((visit w options k file = ⟨.ok (), k', calls⟩ ∧
          new = (citations (w.compiler.scan text)).filterMap
            (site w options k k'.files file).edge? ∧
          ∀ c ∈ citations (w.compiler.scan text), ¬(site w options k k'.files file).Refuses c) ∨
        ∃ name reason, visit w options k file = ⟨.error (.unresolved file name reason), k', calls⟩ ∧
          ∃ c ∈ citations (w.compiler.scan text),
            (site w options k k'.files file).Refusal c name reason) := by
  have hload : (∃ cause, k.files.get? file = none ∧ w.files.read file = .error cause ∧
        load w k.files file = ⟨.error (.unreadable file cause), k.files, [.read file]⟩) ∨
      ∃ text files calls, Loads w k.files file text files ∧
        load w k.files file = ⟨.ok text, files, calls⟩ := by
    rw [load]
    cases hg : k.files.get? file with
    | some source => exact Or.inr ⟨_, _, _, .stored hg, rfl⟩
    | none =>
      cases hr : w.files.read file with
      | ok text => exact Or.inr ⟨_, _, _, .read hg hr, rfl⟩
      | error cause => exact Or.inl ⟨cause, rfl, rfl, rfl⟩
  rcases hload with ⟨cause, hg, hr, hl⟩ | ⟨text, files, calls, hl, he⟩
  · refine Or.inl ⟨cause, [.read file], hg, hr, ?_⟩
    rw [visit, hl]
  · let o := (Links.linkAll (site w options k files file) (w.compiler.scan text)).run
      ⟨k.deps.clear file, k.queue⟩
    let k' : Walk := { k with
      files
      deps := o.state.deps
      queue := o.state.queue
      changed := k.changed || !k.files.has file }
    have hv : visit w options k file = ⟨o.result, k', calls ++ [.scan text] ++ o.calls⟩ := by
      rw [visit, he]
      rfl
    obtain ⟨new, added, hlinks, hcited, hres⟩ := run_linkAll_clear (site w options k files file)
      (w.compiler.scan text) k.deps k.queue
    refine Or.inr ⟨text, k', calls ++ [.scan text] ++ o.calls, new, added,
      ⟨hl, rfl, rfl, rfl, hlinks, hcited⟩, ?_⟩
    rcases hres with ⟨hok, hnew, hall⟩ | ⟨name, reason, herr, hsome⟩
    · have ho : o.result = .ok () := hok
      exact Or.inl ⟨hv.trans (ho ▸ rfl), hnew, hall⟩
    · have ho : o.result = .error (.unresolved file name reason) := herr
      exact Or.inr ⟨name, reason, hv.trans (ho ▸ rfl), hsome⟩

theorem visits_of_visit {w : World} {options : Json.Object} {k k' : Walk} {file : Path}
    {r : Except CompileError Unit} {calls : List Call}
    (h : visit w options k file = ⟨r, k', calls⟩) :
    k' = { k with deps := k.deps.clear file } ∨
      ∃ text new added, Visits w options k file text k' new added := by
  rcases visit_cases w options k file with
    ⟨cause, calls', -, -, he⟩ | ⟨text, k₁, calls', new, added, hvis, hres⟩
  · exact Or.inl (congrArg Outcome.state (h.symm.trans he))
  · refine Or.inr ⟨text, new, added, ?_⟩
    have hk : k' = k₁ := by
      rcases hres with ⟨he, -⟩ | ⟨_, _, he, -⟩
      · exact congrArg Outcome.state (h.symm.trans he)
      · exact congrArg Outcome.state (h.symm.trans he)
    exact hk ▸ hvis

/-- The oldest file of the queue is dropped if it is valid, and visited
otherwise. -/
inductive Step (w : World) (options : Json.Object) : Walk → Walk → Prop
  | skip {k : Walk} {file : Path} {queue : List Path} (hq : k.queue = file :: queue)
      (hv : isValid k.marks (k.files.key file) = true) : Step w options k { k with queue }
  | visit {k k' : Walk} {file : Path} {queue : List Path} {text : String} {added : List Path}
      (hq : k.queue = file :: queue) (hv : isValid k.marks (k.files.key file) = false)
      (accepted : ∀ c ∈ citations (w.compiler.scan text),
        ¬(site w options (k.enter file queue) k'.files file).Refuses c)
      (h : Visits w options (k.enter file queue) file text k'
        ((citations (w.compiler.scan text)).filterMap
          (site w options (k.enter file queue) k'.files file).edge?) added) :
      Step w options k k'

theorem step_of_visit {w : World} {options : Json.Object} {k next : Walk} {file : Path}
    {queue : List Path} {calls : List Call} (hq : k.queue = file :: queue)
    (hv : isValid k.marks (k.files.key file) = false)
    (h : visit w options (k.enter file queue) file = ⟨.ok (), next, calls⟩) :
    Step w options k next := by
  rcases visit_cases w options (k.enter file queue) file with
    ⟨cause, calls', -, -, he⟩ | ⟨text, k', calls', new, added, hvis, hres⟩
  · rw [h] at he
    cases he
  · rcases hres with ⟨hok, rfl, hall⟩ | ⟨name, reason, herr, -⟩
    · rw [h] at hok
      cases hok
      exact .visit hq hv hall hvis
    · rw [h] at herr
      cases herr

theorem run_skipped (w : World) (options : Json.Object) {k : Walk} {file : Path}
    (hq : k.queue = [file]) (hv : isValid k.marks (k.files.key file) = true) :
    run w options k = ⟨.ok (), { k with queue := [] }, []⟩ := by
  rw [run]
  split
  · rename_i hnil
    rw [hq] at hnil
    cases hnil
  · rename_i hcons
    rw [hq] at hcons
    obtain ⟨rfl, rfl⟩ := List.cons.inj hcons
    rw [dif_pos hv, run]

/-- A walk up to its end, or up to the visit that fails. -/
def explore (w : World) (options : Json.Object) (k : Walk) : Outcome Walk CompileError Unit :=
  match hq : k.queue with
  | [] => ⟨.ok (), k, []⟩
  | file :: queue =>
    if hv : isValid k.marks (k.files.key file) then
      have : queue.length < k.queue.length := by simp [hq]
      explore w options { k with queue }
    else
      match h : visit w options (k.enter file queue) file with
      | ⟨.error e, k, calls⟩ => ⟨.error e, k, calls⟩
      | ⟨.ok (), next, calls⟩ =>
        have : toVisit w next < toVisit w k := toVisit_lt (by simpa using hv) h
        (explore w options next).after calls
termination_by (k.toVisit w, k.queue.length)
decreasing_by
  · exact Prod.Lex.right _ this
  · exact Prod.Lex.left _ _ this

section Exploring

variable {w : World} {options : Json.Object} {k : Walk} {file : Path} {queue : List Path}
  {e : CompileError}

theorem explore_nil (hq : k.queue = []) : explore w options k = ⟨.ok (), k, []⟩ := by
  rw [explore]
  split
  · rfl
  · rename_i hcons
    rw [hq] at hcons
    cases hcons

theorem explore_skip (hq : k.queue = file :: queue)
    (hv : isValid k.marks (k.files.key file) = true) :
    explore w options k = explore w options { k with queue } := by
  rw [explore]
  split
  · rename_i hnil
    rw [hq] at hnil
    cases hnil
  · rename_i hcons
    rw [hq] at hcons
    obtain ⟨rfl, rfl⟩ := List.cons.inj hcons
    rw [dif_pos hv]

theorem explore_visit (hq : k.queue = file :: queue)
    (hv : isValid k.marks (k.files.key file) = false) :
    explore w options k = match visit w options (k.enter file queue) file with
      | ⟨.error e, k, calls⟩ => ⟨.error e, k, calls⟩
      | ⟨.ok (), next, calls⟩ => (explore w options next).after calls := by
  rw [explore]
  split
  · rename_i hnil
    rw [hq] at hnil
    cases hnil
  · rename_i hcons
    rw [hq] at hcons
    obtain ⟨rfl, rfl⟩ := List.cons.inj hcons
    rw [dif_neg (by rw [hv]; exact Bool.false_ne_true)]
    split <;> rename_i h <;> simp only [h]

theorem explore_of_visit_error (hq : k.queue = file :: queue)
    (hv : isValid k.marks (k.files.key file) = false)
    (he : (visit w options (k.enter file queue) file).result = .error e) :
    explore w options k = visit w options (k.enter file queue) file := by
  rw [explore_visit hq hv]
  cases h : visit w options (k.enter file queue) file with
  | mk result state calls =>
    rw [h] at he
    cases he
    rfl

theorem explore_of_visit_ok (w : World) (options : Json.Object) (hq : k.queue = file :: queue)
    (hv : isValid k.marks (k.files.key file) = false)
    (hok : (visit w options (k.enter file queue) file).result = .ok ()) :
    explore w options k = (explore w options (visit w options (k.enter file queue) file).state).after
      (visit w options (k.enter file queue) file).calls := by
  rw [explore_visit hq hv]
  cases h : visit w options (k.enter file queue) file with
  | mk result state calls =>
    rw [h] at hok
    cases hok
    rfl

end Exploring

/-- A walk that fails is given up where it stops. -/
theorem run_eq_explore (w : World) (options : Json.Object) (k : Walk) :
    let o := explore w options k
    (run w options k).result = o.result ∧
      (run w options k).state = if o.result.isOk then o.state else o.state.abandon := by
  fun_induction run w options k with
  | case1 k hq =>
    rw [explore_nil hq]
    exact ⟨rfl, rfl⟩
  | case2 k file queue hq hv _ ih =>
    rw [explore_skip hq hv]
    exact ih
  | case3 k file queue hq hv e k' calls h =>
    rw [explore_visit hq (by simpa using hv), h]
    exact ⟨rfl, rfl⟩
  | case4 k file queue hq hv next calls h _ ih =>
    rw [explore_visit hq (by simpa using hv), h]
    exact ih

theorem explore_cases (w : World) (options : Json.Object) (k : Walk) :
    ∃ k₁, ReflTransGen (Step w options) k k₁ ∧
      (((explore w options k).result = .ok () ∧ (explore w options k).state = k₁ ∧
          k₁.queue = []) ∨
        ∃ file queue e k₂ calls, k₁.queue = file :: queue ∧
          isValid k₁.marks (k₁.files.key file) = false ∧
          visit w options (k₁.enter file queue) file = ⟨.error e, k₂, calls⟩ ∧
          (explore w options k).result = .error e ∧ (explore w options k).state = k₂) := by
  fun_induction explore w options k with
  | case1 k hq => exact ⟨k, .refl, Or.inl ⟨rfl, rfl, hq⟩⟩
  | case2 k file queue hq hv _ ih =>
    obtain ⟨k₁, hsteps, hend⟩ := ih
    exact ⟨k₁, .head (.skip hq hv) hsteps, hend⟩
  | case3 k file queue hq hv e k' calls h =>
    exact ⟨k, .refl, Or.inr ⟨file, queue, e, k', calls, hq, by simpa using hv, h, rfl, rfl⟩⟩
  | case4 k file queue hq hv next calls h _ ih =>
    obtain ⟨k₁, hsteps, hend⟩ := ih
    exact ⟨k₁, .head (step_of_visit hq (by simpa using hv) h) hsteps, hend⟩

/-- Where a walk ends, if it succeeds within so many steps. -/
def ended? (w : World) (options : Json.Object) : Nat → Walk → Option Walk
  | 0, _ => none
  | n + 1, k =>
    match k.queue with
    | [] => some k
    | file :: queue =>
      if isValid k.marks (k.files.key file) then ended? w options n { k with queue }
      else
        match visit w options (k.enter file queue) file with
        | ⟨.error _, _, _⟩ => none
        | ⟨.ok (), next, _⟩ => ended? w options n next

theorem explore_of_ended? {w : World} {options : Json.Object} {n : Nat} {k k' : Walk}
    (h : ended? w options n k = some k') :
    (explore w options k).result = .ok () ∧ (explore w options k).state = k' := by
  induction n generalizing k with
  | zero => cases h
  | succ n ih =>
    rw [ended?] at h
    split at h
    · rename_i hq
      obtain rfl := Option.some.inj h
      rw [explore_nil hq]
      exact ⟨rfl, rfl⟩
    · rename_i file queue hq
      split at h
      · rename_i hv
        rw [explore_skip hq hv]
        exact ih h
      · rename_i hv
        rw [explore_visit hq (eq_false_of_ne_true hv)]
        split at h
        · cases h
        · exact ih h

theorem run_of_ended? {w : World} {options : Json.Object} {n : Nat} {k k' : Walk}
    (h : ended? w options n k = some k') :
    (run w options k).result = .ok () ∧ (run w options k).state = k' := by
  obtain ⟨hresult, hstate⟩ := run_eq_explore w options k
  obtain ⟨hok, hend⟩ := explore_of_ended? h
  rw [hok, hend] at hstate
  exact ⟨hresult.trans hok, hstate⟩

/-- A walk that ends well has emptied its queue; one that fails has come to a
file that cannot be visited, and is abandoned. -/
theorem run_cases (w : World) (options : Json.Object) (k : Walk) :
    ∃ k₁, ReflTransGen (Step w options) k k₁ ∧
      (((run w options k).result = .ok () ∧ (run w options k).state = k₁ ∧ k₁.queue = []) ∨
        ∃ file queue e k₂ calls, k₁.queue = file :: queue ∧
          isValid k₁.marks (k₁.files.key file) = false ∧
          visit w options (k₁.enter file queue) file = ⟨.error e, k₂, calls⟩ ∧
          (run w options k).result = .error e ∧ (run w options k).state = k₂.abandon) := by
  obtain ⟨hresult, hstate⟩ := run_eq_explore w options k
  obtain ⟨k₁, hsteps, ⟨hok, hend, hq⟩ | ⟨file, queue, e, k₂, calls, hq, hv, hvisit, herr, hend⟩⟩ :=
    explore_cases w options k
  all_goals
    refine ⟨k₁, hsteps, ?_⟩
    rw [hresult, hstate]
  · rw [hok, hend]
    exact Or.inl ⟨rfl, rfl, hq⟩
  · rw [herr, hend]
    exact Or.inr ⟨file, queue, e, k₂, calls, hq, hv, hvisit, rfl, rfl⟩

section Loading

variable {w : World} {files files' : FileStore} {file : Path} {text : String}

theorem Loads.case (h : Loads w files file text files') : files'.case = files.case := by
  cases h <;> rfl

theorem Loads.mem_iff (h : Loads w files file text files') (key : String) :
    key ∈ files'.files ↔ files.key file = key ∨ key ∈ files.files := by
  cases h with
  | stored h =>
    refine (or_iff_right_of_imp ?_).symm
    rintro rfl
    exact FileStore.mem_of_get? h
  | read _ _ => exact FileStore.mem_put files file text 0 key

theorem Loads.kept (h : Loads w files file text files') (hk : files.Kept) : files'.Kept := by
  cases h with
  | stored => exact hk
  | read _ _ => exact hk.add file text

theorem Loads.mem (h : Loads w files file text files') : files.key file ∈ files'.files :=
  (h.mem_iff _).2 (Or.inl rfl)

theorem Loads.mono (h : Loads w files file text files') {key : String} (hk : key ∈ files.files) :
    key ∈ files'.files :=
  (h.mem_iff key).2 (Or.inr hk)

theorem Loads.get? (h : Loads w files file text files') :
    ∃ source, files'.get? file = some source ∧ source.text = text := by
  cases h with
  | @stored source hg => exact ⟨source, hg, rfl⟩
  | read _ _ =>
    refine ⟨⟨file.normalize, text, 0⟩, ?_, rfl⟩
    rw [FileStore.get?, FileStore.add, FileStore.getElem?_put]
    exact if_pos rfl

theorem Loads.get?_of_ne (h : Loads w files file text files') {p : Path}
    (hp : files.key p ≠ files.key file) : files'.get? p = files.get? p := by
  cases h with
  | stored _ => rfl
  | read _ _ => exact (FileStore.getElem?_put files file text 0 _).trans (if_neg (Ne.symm hp))

theorem Loads.getElem? (h : Loads w files file text files') {key : String}
    {source : SourceFile} (hk : files.files[key]? = some source) :
    files'.files[key]? = some source := by
  cases h with
  | stored => exact hk
  | read hn _ =>
    rw [FileStore.add, FileStore.getElem?_put, if_neg]
    · exact hk
    · rintro rfl
      rw [FileStore.get?, hk] at hn
      cases hn

end Loading

/-- What every visit does, also one that fails: its file counts as visited, and
only what is recorded for this file is new. -/
structure Touches (k : Walk) (file : Path) (queue : List Path) (k' : Walk) (new : List Edge)
    (added : List Path) : Prop where
  case : k'.files.case = k.files.case
  mono : ∀ key ∈ k.files.files, key ∈ k'.files.files
  kept : k.files.Kept → k'.files.Kept
  marks : k'.marks = k.marks.insert (k.files.key file) .valid
  analyzed : k'.analyzed = k.analyzed ++ [file]
  links : ∃ s : Site, s.file = file ∧
    Extends s ⟨k.deps.clear file, queue⟩ ⟨k'.deps, k'.queue⟩ new added

/-- A key that is valid, or that waits for a visit. -/
def Settled (k : Walk) (key : String) : Prop :=
  isValid k.marks key = true ∨ ∃ q ∈ k.queue, k.files.key q = key

theorem Settled.valid {k : Walk} {key : String} (h : k.Settled key) (hq : k.queue = []) :
    isValid k.marks key = true := by
  rcases h with hv | ⟨q, hm, -⟩
  · exact hv
  · rw [hq] at hm
    cases hm

section Touching

variable {k k' : Walk} {file : Path} {queue : List Path} {new : List Edge} {added : List Path}

theorem Touches.queue_eq (h : Touches k file queue k' new added) : k'.queue = queue ++ added := by
  obtain ⟨_, -, hl⟩ := h.links
  exact hl.queue

theorem Touches.forall_queue (h : Touches k file queue k' new added) {P : Path → Prop}
    (hqueue : ∀ q ∈ queue, P q) (hnew : ∀ e ∈ new, P e.target) : ∀ q ∈ k'.queue, P q := by
  obtain ⟨_, -, hl⟩ := h.links
  intro q hm
  rw [h.queue_eq] at hm
  rcases List.mem_append.1 hm with hm | hm
  · exact hqueue q hm
  · obtain ⟨e, he, rfl, -⟩ := hl.waiting q hm
    exact hnew e he

theorem Touches.key (h : Touches k file queue k' new added) (p : Path) :
    k'.files.key p = k.files.key p :=
  FileStore.key_eq_key_of_case h.case p

theorem Touches.deps_case (h : Touches k file queue k' new added) : k'.deps.case = k.deps.case := by
  obtain ⟨_, -, hl⟩ := h.links
  exact hl.case

theorem Touches.isValid_iff (h : Touches k file queue k' new added) (key : String) :
    isValid k'.marks key = true ↔ k.files.key file = key ∨ isValid k.marks key = true := by
  rw [h.marks, isValid_insert]
  simp

/-- The edges under the key of a visited file are those just recorded; the edges
under other keys stay. -/
theorem Touches.edgesAt (h : Touches k file queue k' new added) (key : String) :
    k'.deps.edgesAt key = if k.deps.key file = key then new else k.deps.edgesAt key := by
  obtain ⟨s, rfl, hl⟩ := h.links
  have hkey : k'.deps.key s.file = k.deps.key s.file := key_eq_key_of_case h.deps_case s.file
  split
  · rename_i he
    have hnew : k'.deps.edgesOf s.file = [] ++ new := edgesOf_clear k.deps s.file ▸ hl.edges
    rw [← he, ← hkey]
    exact hnew
  · rename_i he
    have hsame := (sameElsewhere_clear k.deps s.file).trans hl.elsewhere
    rw [Dependencies.edgesAt, hsame.edges key (Ne.symm he)]
    rfl

theorem Touches.edgesAt_self (h : Touches k file queue k' new added)
    (hcase : k.deps.case = k.files.case) : k'.deps.edgesAt (k.files.key file) = new := by
  rw [h.edgesAt, key_eq_files_key hcase, if_pos rfl]

theorem Touches.edgesAt_of_valid (h : Touches k file queue k' new added)
    (hcase : k.deps.case = k.files.case) (hv : isValid k.marks (k.files.key file) = false)
    {key : String} (hk : isValid k.marks key = true) :
    k'.deps.edgesAt key = k.deps.edgesAt key := by
  rw [h.edgesAt, key_eq_files_key hcase, if_neg]
  rintro rfl
  rw [hv] at hk
  cases hk

theorem Touches.settled_added (h : Touches k file queue k' new added) {q : Path}
    (hq : q ∈ added) : k'.Settled (k.files.key q) := by
  refine Or.inr ⟨q, ?_, h.key q⟩
  rw [h.queue_eq]
  exact List.mem_append_right queue hq

theorem Settled.touch (hq : k.queue = file :: queue) (h : Touches k file queue k' new added)
    {key : String} (hs : k.Settled key) : k'.Settled key := by
  rcases hs with hv | ⟨q, hm, hk⟩
  · exact Or.inl ((h.isValid_iff key).2 (Or.inr hv))
  · rw [hq] at hm
    rcases List.mem_cons.1 hm with rfl | hm
    · exact Or.inl ((h.isValid_iff key).2 (Or.inl hk))
    · refine Or.inr ⟨q, ?_, (h.key q).trans hk⟩
      rw [h.queue_eq]
      exact List.mem_append_left added hm

theorem Settled.skip (hq : k.queue = file :: queue) (hv : isValid k.marks (k.files.key file) = true)
    {key : String} (hs : k.Settled key) : ({ k with queue } : Walk).Settled key := by
  rcases hs with hs | ⟨q, hm, hk⟩
  · exact Or.inl hs
  · rw [hq] at hm
    rcases List.mem_cons.1 hm with rfl | hm
    · exact Or.inl (hk ▸ hv)
    · exact Or.inr ⟨q, hm, hk⟩

theorem Touches.known (h : Touches k file queue k' new added) (hcase : k.deps.case = k.files.case)
    {key : String} (hk : key ∈ k'.deps.declarations) :
    key ∈ k.deps.declarations ∨ k'.Settled key := by
  obtain ⟨s, rfl, hl⟩ := h.links
  rcases (hl.known key).1 hk with hd | ⟨e, he, hsource, hke⟩
  · exact Or.inl hd
  · have hke : k.deps.key e.target = key := hke
    rcases hl.declared e he hsource with hd | ⟨q, hm, hqe⟩
    · have hd : k.deps.key e.target ∈ k.deps.declarations := hd
      exact Or.inl (hke ▸ hd)
    · have hqe : k.deps.key q = k.deps.key e.target := hqe
      rw [hke, Dependencies.key, hcase] at hqe
      exact Or.inr (hqe ▸ h.settled_added hm)

end Touching

theorem Visits.touches {w : World} {options : Json.Object} {k k' : Walk} {file : Path}
    {queue : List Path} {text : String} {new : List Edge} {added : List Path}
    (h : Visits w options (k.enter file queue) file text k' new added) :
    Touches k file queue k' new added :=
  ⟨h.loads.case, fun _ ↦ h.loads.mono, h.loads.kept, h.marks, h.analyzed, _, rfl, h.links⟩

/-- What a visited file asks for is settled, unless it is a declaration file that
was known. -/
theorem Visits.settled {w : World} {options : Json.Object} {k k' : Walk} {file : Path}
    {queue : List Path} {text : String} {new : List Edge} {added : List Path}
    (h : Visits w options (k.enter file queue) file text k' new added)
    (hcase : k.deps.case = k.files.case) {e : Edge} (he : e ∈ new) :
    k'.Settled (k.files.key e.target) ∨
      e.kind ≠ .source ∧ k.files.key e.target ∈ k.deps.declarations := by
  have ht := h.touches
  have hlinks := h.links
  by_cases hsource : e.kind = .source
  · rcases hlinks.sources e he hsource with hv | hm
    · have hv : isValid (k.enter file queue).marks (k'.files.key e.target) = true := hv
      rw [← h.marks, ht.key] at hv
      exact Or.inl (Or.inl hv)
    · exact Or.inl (ht.settled_added hm)
  · have hd : k.deps.key e.target ∈ k'.deps.declarations :=
      (hlinks.known _).2 (Or.inr ⟨e, he, hsource, rfl⟩)
    rw [key_eq_files_key hcase] at hd
    rcases ht.known hcase hd with hd | hs
    · exact Or.inr ⟨hsource, hd⟩
    · exact Or.inl hs

section Steps

variable {w : World} {options : Json.Object} {k k' : Walk} {file : Path} {queue : List Path}
  {text : String} {new : List Edge} {added : List Path}

theorem Step.settled (h : Step w options k k') {key : String} (hs : k.Settled key) :
    k'.Settled key := by
  cases h with
  | skip hq hv => exact hs.skip hq hv
  | visit hq _ _ h => exact hs.touch hq h.touches

/-- Valid files are stored; what they lead to, and every declaration file known,
is settled or has one of the keys `loose`. -/
structure Covered (loose : String → Prop) (k : Walk) : Prop where
  case : k.deps.case = k.files.case
  stored : ∀ key, isValid k.marks key = true → key ∈ k.files.files
  edges : ∀ key, isValid k.marks key = true → ∀ e ∈ k.deps.edgesAt key,
    k.Settled (k.files.key e.target) ∨ loose (k.files.key e.target)
  known : ∀ key ∈ k.deps.declarations, k.Settled key ∨ loose key

variable {loose : String → Prop}

theorem Covered.skip (hk : k.Covered loose) (hq : k.queue = file :: queue)
    (hv : isValid k.marks (k.files.key file) = true) : ({ k with queue } : Walk).Covered loose where
  case := hk.case
  stored := hk.stored
  edges key hkey e he := (hk.edges key hkey e he).imp_left (Settled.skip hq hv)
  known key hkey := (hk.known key hkey).imp_left (Settled.skip hq hv)

theorem Covered.visit (hk : k.Covered loose) (hq : k.queue = file :: queue)
    (hv : isValid k.marks (k.files.key file) = false)
    (h : Visits w options (k.enter file queue) file text k' new added) : k'.Covered loose := by
  have ht := h.touches
  have hold {key : String} (hs : k.Settled key ∨ loose key) : k'.Settled key ∨ loose key :=
    hs.imp_left (Settled.touch hq ht)
  constructor
  case case =>
    rw [ht.deps_case, hk.case, ht.case]
  case stored =>
    intro key hkey
    rcases (ht.isValid_iff key).1 hkey with rfl | hkey
    · exact h.loads.mem
    · exact ht.mono key (hk.stored key hkey)
  case edges =>
    intro key hkey e he
    rw [ht.key]
    rcases (ht.isValid_iff key).1 hkey with rfl | hkey
    · rw [ht.edgesAt_self hk.case] at he
      rcases h.settled hk.case he with hs | ⟨-, hd⟩
      · exact Or.inl hs
      · exact hold (hk.known _ hd)
    · rw [ht.edgesAt_of_valid hk.case hv hkey] at he
      exact hold (hk.edges key hkey e he)
  case known =>
    intro key hkey
    rcases ht.known hk.case hkey with hd | hs
    · exact hold (hk.known key hd)
    · exact Or.inl hs

theorem Covered.step (hk : k.Covered loose) (h : Step w options k k') : k'.Covered loose := by
  cases h with
  | skip hq hv => exact hk.skip hq hv
  | visit hq hv _ h => exact hk.visit hq hv h

/-- A walk keeps to its queue: what was settled and what was covered stays so. -/
theorem Covered.steps (hk : k.Covered loose) (h : ReflTransGen (Step w options) k k') :
    k'.Covered loose := by
  induction h with
  | refl => exact hk
  | tail _ hs ih => exact ih.step hs

theorem Settled.steps {key : String} (hk : k.Settled key)
    (h : ReflTransGen (Step w options) k k') : k'.Settled key := by
  induction h with
  | refl => exact hk
  | tail _ hs ih => exact hs.settled ih

end Steps

section Failing

variable {w : World} {options : Json.Object} {c k k' : Walk} {file : Path} {queue : List Path}
  {new : List Edge} {added : List Path}

theorem touches_of_visit {r : Except CompileError Unit} {calls : List Call}
    (h : visit w options (k.enter file queue) file = ⟨r, k', calls⟩) :
    ∃ new added, Touches k file queue k' new added ∧ ∀ e ∈ new, Cited w options e := by
  rcases visits_of_visit h with rfl | ⟨text, new, added, hvis⟩
  · exact ⟨[], [], ⟨rfl, fun _ hk ↦ hk, id, rfl, rfl,
      site w options k k.files file, rfl, Extends.refl _ _⟩, by simp⟩
  · exact ⟨new, added, hvis.touches, fun e he ↦ hvis.cited_of_mem he⟩

/-- The state of a walk that began at `c`: the files that have become valid are
those it has visited, and what is recorded for files that were valid stays. -/
structure From (c k : Walk) : Prop where
  case : k.files.case = c.files.case
  deps_case : k.deps.case = k.files.case
  stored : ∀ key ∈ c.files.files, key ∈ k.files.files
  kept : c.files.Kept → k.files.Kept
  valid : ∀ key, isValid k.marks key = true ↔
    isValid c.marks key = true ∨ ∃ p ∈ k.analyzed, k.files.key p = key
  fresh : ∀ p ∈ k.analyzed, isValid c.marks (k.files.key p) = false
  edges : ∀ key, isValid c.marks key = true → k.deps.edgesAt key = c.deps.edgesAt key
  known : ∀ key ∈ k.deps.declarations, key ∈ c.deps.declarations ∨ k.Settled key

theorem From.key (h : From c k) (p : Path) : k.files.key p = c.files.key p :=
  FileStore.key_eq_key_of_case h.case p

theorem From.deps_key (h : From c k) (p : Path) : k.deps.key p = k.files.key p :=
  key_eq_files_key h.deps_case p

theorem From.isValid_of_mem (h : From c k) {p : Path} (hp : p ∈ k.analyzed) :
    isValid k.marks (k.files.key p) = true :=
  (h.valid _).2 (Or.inr ⟨p, hp, rfl⟩)

theorem from_start (hc : c.deps.case = c.files.case) (ha : c.analyzed = []) : From c c where
  case := rfl
  deps_case := hc
  stored := fun _ h ↦ h
  kept := id
  valid := by simp [ha]
  fresh := by simp [ha]
  edges := fun _ _ ↦ rfl
  known := fun _ h ↦ Or.inl h

theorem From.skip (h : From c k) (hq : k.queue = file :: queue)
    (hv : isValid k.marks (k.files.key file) = true) : From c { k with queue } where
  case := h.case
  deps_case := h.deps_case
  stored := h.stored
  kept := h.kept
  valid := h.valid
  fresh := h.fresh
  edges := h.edges
  known key hk := (h.known key hk).imp_right (Settled.skip hq hv)

theorem From.touch (h : From c k) (hq : k.queue = file :: queue)
    (hv : isValid k.marks (k.files.key file) = false) (ht : Touches k file queue k' new added) :
    From c k' := by
  have hfile : isValid c.marks (k.files.key file) = false := by
    cases hc : isValid c.marks (k.files.key file) with
    | false => rfl
    | true => exact absurd ((h.valid _).2 (Or.inl hc)) (by simp [hv])
  constructor
  case case => exact ht.case.trans h.case
  case deps_case =>
    rw [ht.deps_case, h.deps_case, ht.case]
  case stored => exact fun key hk ↦ ht.mono key (h.stored key hk)
  case kept => exact fun hk ↦ ht.kept (h.kept hk)
  case valid =>
    intro key
    rw [ht.isValid_iff, h.valid, ht.analyzed]
    simp only [ht.key, List.mem_append, List.mem_singleton, or_and_right, exists_or,
      exists_eq_left]
    rw [or_comm, or_assoc]
  case fresh =>
    intro p hp
    rw [ht.key]
    rw [ht.analyzed] at hp
    rcases List.mem_append.1 hp with hp | hp
    · exact h.fresh p hp
    · exact List.mem_singleton.1 hp ▸ hfile
  case edges =>
    intro key hc
    rw [ht.edgesAt_of_valid h.deps_case hv ((h.valid key).2 (Or.inl hc))]
    exact h.edges key hc
  case known =>
    intro key hk
    rcases ht.known h.deps_case hk with hd | hs
    · exact (h.known key hd).imp_right (Settled.touch hq ht)
    · exact Or.inr hs

theorem From.step (h : From c k) (hs : Step w options k k') : From c k' := by
  cases hs with
  | skip hq hv => exact h.skip hq hv
  | visit hq hv _ hvis => exact h.touch hq hv hvis.touches

theorem From.steps (h : From c k) (hs : ReflTransGen (Step w options) k k') : From c k' := by
  induction hs with
  | refl => exact h
  | tail _ hs ih => exact ih.step hs

theorem Loads.advances {files files' : FileStore} {text : String}
    (h : Loads w files file text files') : files.Advances files' := by
  cases h with
  | stored _ => exact .refl files
  | read _ _ => exact files.advances_put file text 0

theorem advances_run (w : World) (options : Json.Object) (k : Walk) :
    k.files.Advances (run w options k).state.files := by
  have hvisit {k k' : Walk} {file : Path} {queue : List Path} {r : Except CompileError Unit}
      {calls : List Call} (hv : visit w options (k.enter file queue) file = ⟨r, k', calls⟩) :
      k.files.Advances k'.files := by
    rcases visits_of_visit hv with rfl | ⟨text, new, added, hvis⟩
    · exact .refl _
    · exact hvis.loads.advances
  fun_induction run w options k with
  | case1 k hq => exact .refl _
  | case2 k file queue hq hv _ ih => exact ih
  | case3 k file queue hq hv e k' calls hvis =>
    have hfiles := hvisit hvis
    exact hfiles
  | case4 k file queue hq hv next calls hvis _ ih =>
    have hfiles := hvisit hvis
    exact hfiles.trans ih

theorem getElem?_foldl_invalid (marks : Marks) (key : Path → String) (paths : List Path)
    (k : String) : (paths.foldl (fun m p ↦ m.insert (key p) .invalid) marks)[k]? =
      if k ∈ paths.map key then some .invalid else marks[k]? := by
  induction paths generalizing marks with
  | nil => rfl
  | cons p paths ih =>
    rw [List.foldl_cons, ih, Std.ExtTreeMap.getElem?_insert]
    simp only [Std.LawfulEqCmp.compare_eq_iff_eq, List.map_cons, List.mem_cons]
    by_cases hm : k ∈ paths.map key
    · rw [if_pos hm, if_pos (Or.inr hm)]
    · simp only [hm, or_false, if_false, eq_comm (a := key p)]

theorem isValid_foldl_invalid (marks : Marks) (key : Path → String) (paths : List Path)
    (k : String) :
    isValid (paths.foldl (fun m p ↦ m.insert (key p) .invalid) marks) k = true ↔
      isValid marks k = true ∧ ∀ p ∈ paths, key p ≠ k := by
  have hmem : k ∉ paths.map key ↔ ∀ p ∈ paths, key p ≠ k := by simp
  rw [isValid, getElem?_foldl_invalid]
  by_cases hm : k ∈ paths.map key
  · rw [if_pos hm]
    exact iff_of_false Bool.false_ne_true fun ⟨_, hn⟩ ↦ hmem.2 hn hm
  · rw [if_neg hm]
    exact (and_iff_left (hmem.1 hm)).symm

theorem unmark_foldl (d : Dependencies) (paths : List Path) :
    let d' := paths.foldl (fun d p ↦ if p.isDeclaration then (d.unmark p).2 else d) d
    d'.case = d.case ∧ d'.edges = d.edges ∧ d'.modules = d.modules ∧ d'.types = d.types ∧
      ∀ key, key ∈ d'.declarations ↔
        key ∈ d.declarations ∧ ∀ p ∈ paths, p.isDeclaration = true → d.key p ≠ key := by
  induction paths generalizing d with
  | nil => simp
  | cons p paths ih =>
    rw [List.foldl_cons]
    cases hp : p.isDeclaration with
    | false =>
      obtain ⟨h₁, h₂, h₃, h₄, h₅⟩ := ih d
      refine ⟨h₁, h₂, h₃, h₄, ?_⟩
      intro key
      rw [List.forall_mem_cons, hp]
      simpa using h₅ key
    | true =>
      obtain ⟨h₁, h₂, h₃, h₄, h₅⟩ := ih (d.unmark p).2
      refine ⟨h₁, h₂, h₃, h₄, ?_⟩
      intro key
      have hd : key ∈ (d.unmark p).2.declarations ↔ key ∈ d.declarations ∧ d.key p ≠ key := by
        rw [Dependencies.unmark, Std.ExtTreeSet.mem_erase, and_comm]
        apply and_congr_right
        intro _
        rw [Ne, Std.LawfulEqCmp.compare_eq_iff_eq]
      rw [List.forall_mem_cons, hp]
      simp only [if_true]
      rw [h₅, hd, and_assoc]
      simp only [forall_const]
      rfl

theorem From.isValid_abandon (h : From c k) (key : String) :
    isValid k.abandon.marks key = true ↔ isValid c.marks key = true := by
  rw [abandon, isValid_foldl_invalid, h.valid]
  constructor
  · rintro ⟨hv | ⟨p, hp, hk⟩, hn⟩
    · exact hv
    · exact absurd hk (hn p hp)
  · intro hv
    refine ⟨Or.inl hv, ?_⟩
    intro p hp hk
    have hf := h.fresh p hp
    rw [hk, hv] at hf
    cases hf

theorem abandon_edgesAt (k : Walk) (key : String) :
    k.abandon.deps.edgesAt key = k.deps.edgesAt key := by
  rw [Dependencies.edgesAt, abandon, (unmark_foldl k.deps (k.analyzed ++ k.queue)).2.1]
  rfl

theorem abandon_case (k : Walk) : k.abandon.deps.case = k.deps.case :=
  (unmark_foldl k.deps (k.analyzed ++ k.queue)).1

theorem mem_declarations_abandon (k : Walk) (key : String) :
    key ∈ k.abandon.deps.declarations ↔ key ∈ k.deps.declarations ∧
      ∀ p ∈ k.analyzed ++ k.queue, p.isDeclaration = true → k.deps.key p ≠ key :=
  (unmark_foldl k.deps (k.analyzed ++ k.queue)).2.2.2.2 key

end Failing

end Walk

end TypedLoader.Analysis
