import TypedLoader.Proofs.Analysis.Once

namespace TypedLoader

namespace Analysis

theorem Walk.Cited.isDeclaration_of_source {w : World} {options : Json.Object} {e : Edge}
    (h : Walk.Cited w options e) (hk : e.kind = .source) : e.target.isDeclaration = false := by
  have hto {target : Path} (hk : (Site.edgeTo target).kind = .source) :
      target.isDeclaration = false := by
    cases hd : target.isDeclaration with
    | false => rfl
    | true =>
      rw [Site.edgeTo, hd] at hk
      cases hk
  obtain ⟨s, -, -, text, citation, -, he⟩ := h
  cases citation
  all_goals
    rw [Site.edge?] at he
    split at he
    · obtain rfl := Option.some.inj he
      first | exact hto hk | cases hk
    · cases he

namespace Walk

variable {w : World} {options : Json.Object} {c k k' : Walk} {file : Path} {queue : List Path}
  {calls calls' : List Call} {new : List Edge} {added : List Path} {e : CompileError}
  {r : Except CompileError Unit}

theorem visit_error (h : visit w options k file = ⟨.error e, k', calls⟩) :
    (∃ cause, e = .unreadable file cause ∧ k.files.get? file = none ∧
      w.files.read file = .error cause) ∨
    ∃ name reason source, e = .unresolved file name reason ∧
      k'.files.get? file = some source ∧
      (name ∈ (w.compiler.scan source.text).imports ∧
          w.compiler.resolveModule name file options = .error reason ∨
        name ∈ (w.compiler.scan source.text).types ∧
          w.compiler.resolveTypes name file options = .error reason) := by
  rcases visit_cases w options k file with ⟨cause, calls', hn, hr, he⟩ |
    ⟨text, k₁, calls', new, added, hvis, ⟨hok, -⟩ | ⟨name, reason, he, citation, hc, hrefusal⟩⟩
  · rw [h] at he
    cases he
    exact Or.inl ⟨cause, rfl, hn, hr⟩
  · rw [h] at hok
    cases hok
  · rw [h] at he
    cases he
    obtain ⟨source, hsource, rfl⟩ := hvis.loads.get?
    refine Or.inr ⟨name, reason, source, rfl, hsource, ?_⟩
    cases hrefusal with
    | module hr => exact Or.inl ⟨by simpa [mem_citations] using hc, hr⟩
    | types hr => exact Or.inr ⟨by simpa [mem_citations] using hc, hr⟩

/-- What is recorded for files that a walk from `c` has not visited is as it was. -/
structure Elsewhere (c k : Walk) : Prop where
  deps_case : k.deps.case = c.deps.case
  edges : ∀ key, key ∉ k.analyzed.map c.deps.key → k.deps.edges[key]? = c.deps.edges[key]?
  modules : ∀ key, key ∉ k.analyzed.map c.deps.key → k.deps.modules[key]? = c.deps.modules[key]?
  types : ∀ key, key ∉ k.analyzed.map c.deps.key → k.deps.types[key]? = c.deps.types[key]?

namespace Elsewhere

theorem key (h : Elsewhere c k) (p : Path) : k.deps.key p = c.deps.key p :=
  key_eq_key_of_case h.deps_case p

theorem touch (h : Elsewhere c k) (ht : Touches k file queue k' new added) :
    Elsewhere c k' := by
  obtain ⟨s, rfl, hl⟩ := ht.links
  have hsame := (sameElsewhere_clear k.deps s.file).trans hl.elsewhere
  have hother {key : String} (hn : key ∉ k'.analyzed.map c.deps.key) :
      key ∉ k.analyzed.map c.deps.key ∧ key ≠ k.deps.key s.file := by
    rw [ht.analyzed, List.map_append, List.mem_append, not_or, List.map_singleton,
      List.mem_singleton, ← h.key] at hn
    exact hn
  constructor
  case deps_case => exact ht.deps_case.trans h.deps_case
  case edges => exact fun key hn ↦ (hsame.edges key (hother hn).2).trans (h.edges key (hother hn).1)
  case modules =>
    exact fun key hn ↦ (hsame.modules key (hother hn).2).trans (h.modules key (hother hn).1)
  case types => exact fun key hn ↦ (hsame.types key (hother hn).2).trans (h.types key (hother hn).1)

theorem abandon (h : Elsewhere c k) : Elsewhere c k.abandon := by
  obtain ⟨hcase, hedges, hmodules, htypes, -⟩ := unmark_foldl k.deps (k.analyzed ++ k.queue)
  constructor
  case deps_case => exact hcase.trans h.deps_case
  case edges => exact fun key hn ↦ (congrArg (·[key]?) hedges).trans (h.edges key hn)
  case modules => exact fun key hn ↦ (congrArg (·[key]?) hmodules).trans (h.modules key hn)
  case types => exact fun key hn ↦ (congrArg (·[key]?) htypes).trans (h.types key hn)

theorem lookups (h : Elsewhere c k) {q : Path}
    (hn : c.deps.key q ∉ k.analyzed.map c.deps.key) : k.deps.edgesOf q = c.deps.edgesOf q ∧
      ∀ name, k.deps.moduleOf? q name = c.deps.moduleOf? q name ∧
        k.deps.typesOf? q name = c.deps.typesOf? q name := by
  rw [Dependencies.edgesOf, Dependencies.edgesAt, h.key, h.edges _ hn]
  refine ⟨rfl, fun name ↦ ?_⟩
  rw [Dependencies.moduleOf?, Dependencies.typesOf?, Memo.get?, Memo.get?, h.key, h.modules _ hn,
    h.types _ hn]
  exact ⟨rfl, rfl⟩

end Elsewhere

/-- The declaration files that were known stay known. Of these the walk lets none wait that was
valid. -/
structure Apart (c k : Walk) : Prop extends Elsewhere c k where
  known : ∀ key ∈ c.deps.declarations, key ∈ k.deps.declarations
  waiting : ∀ q ∈ k.queue, q.isDeclaration = true →
    c.deps.key q ∈ c.deps.declarations → isValid c.marks (c.files.key q) = false

theorem apart_start (hq : ∀ q ∈ c.queue, isValid c.marks (c.files.key q) = false) :
    Apart c c where
  deps_case := rfl
  edges _ _ := rfl
  modules _ _ := rfl
  types _ _ := rfl
  known _ h := h
  waiting q hm _ _ := hq q hm

namespace Apart

theorem skip (h : Apart c k) (hq : k.queue = file :: queue) : Apart c { k with queue } :=
  { h with waiting := fun q hm ↦ h.waiting q (hq ▸ List.mem_cons_of_mem file hm) }

theorem touch (h : Apart c k) (hq : k.queue = file :: queue)
    (ht : Touches k file queue k' new added) (hcited : ∀ e ∈ new, Cited w options e) :
    Apart c k' := by
  obtain ⟨s, rfl, hl⟩ := ht.links
  constructor
  case toElsewhere => exact h.toElsewhere.touch ht
  case known => exact fun key hk ↦ (hl.known key).2 (Or.inl (h.known key hk))
  case waiting =>
    intro q hm hd hk
    rw [ht.queue_eq] at hm
    rcases List.mem_append.1 hm with hm | hm
    · exact h.waiting q (hq ▸ List.mem_cons_of_mem s.file hm) hd hk
    -- a declaration file that was known is not let wait
    · obtain ⟨e, he, rfl, hsource | hn⟩ := hl.waiting q hm
      · rw [(hcited e he).isDeclaration_of_source hsource] at hd
        cases hd
      · have hkey : k.deps.key e.target = c.deps.key e.target := h.key e.target
        exact absurd (h.known _ hk) (hkey ▸ hn)

theorem visit (h : Apart c k) (hq : k.queue = file :: queue)
    (hvisit : visit w options (k.enter file queue) file = ⟨r, k', calls⟩) : Apart c k' := by
  obtain ⟨new, added, ht, hcited⟩ := touches_of_visit hvisit
  exact h.touch hq ht hcited

theorem turns (h : Apart c k) (ht : Turns w options k calls k') : Apart c k' := by
  induction ht with
  | refl => exact h
  | head ht _ ih =>
    cases ht with
    | skip hq hv => exact ih (h.skip hq)
    | visit hq hv hvisit => exact ih (h.visit hq hvisit)

theorem known_abandon (h : Apart c k) (hsince : Since w c k) (hcase : c.deps.case = c.files.case)
    {key : String} (hv : isValid c.marks key = true) (hk : key ∈ c.deps.declarations) :
    key ∈ k.abandon.deps.declarations := by
  refine (mem_declarations_abandon k key).2 ⟨h.known key hk, ?_⟩
  rintro q hq hd rfl
  rw [h.key] at hv hk
  have hinvalid : isValid c.marks (c.files.key q) = false := by
    rcases List.mem_append.1 hq with hq | hq
    · exact hsince.fresh q hq
    · exact h.waiting q hq hd hk
  rw [← key_eq_files_key hcase, hv] at hinvalid
  cases hinvalid

end Apart

theorem run_of_valid (w : World) (options : Json.Object) (hq : k.queue = [file])
    (hv : isValid k.marks (k.files.key file) = true) : (run w options k).result = .ok () :=
  congrArg Outcome.result (run_skipped w options hq hv)

end Walk

end Analysis

namespace Compilation

open Analysis (Walk)

/-- Why an analysis that led from `c` to `c'` has failed at a file. -/
inductive Failure (w : World) (c c' : Compilation) (file : Path) : CompileError → Prop
  | unreadable {cause : ReadFailure} (hn : c.get? file = none)
      (hr : w.files.read file = .error cause) : Failure w c c' file (.unreadable file cause)
  | module {source : SourceFile} {name reason : String} (hs : c'.get? file = some source)
      (hname : name ∈ (w.compiler.scan source.text).imports)
      (hr : w.compiler.resolveModule name file c.options = .error reason) :
      Failure w c c' file (.unresolved file name reason)
  | types {source : SourceFile} {name reason : String} (hs : c'.get? file = some source)
      (hname : name ∈ (w.compiler.scan source.text).types)
      (hr : w.compiler.resolveTypes name file c.options = .error reason) :
      Failure w c c' file (.unresolved file name reason)

/-- What an analysis leaves that has failed after visiting some files: these are invalid, and
all else is as it was, except that visited files may have been read into the store, and that
declaration files may have been made known or released. -/
structure Contained (w : World) (c : Compilation) (visited : List Path) (c' : Compilation) :
    Prop where
  invalid : ∀ q ∈ visited, c'.validity? q = some .invalid
  elsewhere : ∀ q, c.files.key q ∉ visited.map c.files.key →
    c'.validity? q = c.validity? q ∧ c'.deps.edgesOf q = c.deps.edgesOf q ∧
      ∀ name, c'.deps.moduleOf? q name = c.deps.moduleOf? q name ∧
        c'.deps.typesOf? q name = c.deps.typesOf? q name
  known : ∀ q, c.isValid q = true → c.deps.isKnown q = true → c'.deps.isKnown q = true
  stored : ∀ q source, c.get? q = some source → c'.get? q = some source
  gained : ∀ q source, c'.get? q = some source → c.get? q = some source ∨
    ∃ p ∈ visited, c.files.key p = c.files.key q ∧
      ∃ text, w.files.read p = .ok text ∧ source = ⟨p.normalize, text, 0⟩

theorem contained_abandon {w : World} {c : Compilation} {p : Path} {k : Walk}
    (hcase : c.deps.case = c.files.case) (hsince : Walk.Since w (c.walk p) k)
    (hapart : Walk.Apart (c.walk p) k) :
    Contained w c k.analyzed (c.withWalk k.abandon) := by
  have hcross : c.deps.key = c.files.key := funext (Analysis.key_eq_files_key hcase)
  have hkey : k.files.key = c.files.key := funext hsince.key
  have hafter := hapart.toElsewhere.abandon
  have hmarks (q : Path) : (c.withWalk k.abandon).validity? q =
      if c.files.key q ∈ k.analyzed.map c.files.key then some .invalid
      else k.marks[c.files.key q]? := by
    rw [← hkey]
    exact Walk.getElem?_foldl_invalid k.marks k.files.key k.analyzed (k.files.key q)
  constructor
  case invalid =>
    intro q hq
    rw [hmarks, if_pos (List.mem_map_of_mem hq)]
  case elsewhere =>
    intro q hn
    refine ⟨?_, hafter.lookups (hcross ▸ hn)⟩
    rw [hmarks, if_neg hn]
    exact (hsince.marks _).trans (if_neg hn)
  case known =>
    intro q hv hk
    have hv : Analysis.isValid c.marks (c.deps.key q) = true := hcross ▸ hv
    have hk := hapart.known_abandon hsince hcase hv (Std.ExtTreeSet.contains_iff_mem.1 hk)
    exact Std.ExtTreeSet.contains_iff_mem.2 ((hafter.key q).symm ▸ hk)
  case stored =>
    exact fun q source hs ↦ (congrArg (k.files.files[·]?) (hsince.key q)).trans
      (hsince.kept _ source hs)
  case gained =>
    exact fun q source hs ↦ hsince.gained _ source
      ((congrArg (k.files.files[·]?) (hsince.key q)).symm.trans hs)

/-- A failed analysis names the file that it could not get over, which is the last one it has
visited. It leaves what it has visited invalid, and all else as it was. -/
theorem failed_check_contained {w : World} {c : Compilation} {p : Path} {e : CompileError}
    (hcase : c.deps.case = c.files.case) (he : ((check w p).run c).result = .error e) :
    let visited := (Walk.run w c.options (c.walk p)).state.analyzed
    let c' := ((check w p).run c).state
    (∃ front file, visited = front ++ [file] ∧ Failure w c c' file e) ∧
      Contained w c visited c' := by
  intro visited c'
  obtain ⟨k, calls, calls', hturns, hend, -⟩ := Walk.run_turns w c.options (c.walk p)
  rw [run_check] at he
  have hstate : c' = c.withWalk (Walk.run w c.options (c.walk p)).state :=
    congrArg Outcome.state (run_check w p c)
  have hnot : c.isValid p.normalize = false := by
    refine Bool.eq_false_iff.2 fun hv ↦ ?_
    have hok := Walk.run_of_valid (k := c.walk p) w c.options rfl hv
    simp only [hok] at he
    cases he
  rw [hstate]
  dsimp only [visited] at he ⊢
  generalize Walk.run w c.options (c.walk p) = o at he hend ⊢
  obtain ⟨result, state, _⟩ := o
  dsimp only at he hend ⊢
  cases hend with
  | done hq => cases he
  | @failed k₂ file queue e' calls' hq hv hvisit =>
    obtain rfl : e' = e := Except.error.inj he
    have hsince := (Walk.since_start (w := w) (c := c.walk p) rfl).turns hturns
    have hapart := (Walk.apart_start (c := c.walk p) (List.forall_mem_singleton.2 hnot)).turns hturns
    obtain ⟨-, hanalyzed, -⟩ := Walk.visit_files hvisit
    refine ⟨⟨k.analyzed, file, hanalyzed, ?_⟩,
      contained_abandon hcase (hsince.visit hv hvisit) (hapart.visit hq hvisit)⟩
    rcases Walk.visit_error hvisit with ⟨cause, rfl, hn, hr⟩ |
      ⟨name, reason, source, rfl, hs, ⟨hname, hr⟩ | ⟨hname, hr⟩⟩
    · refine .unreadable (Option.eq_none_iff_forall_ne_some.2 fun source hs ↦ ?_) hr
      have hkept := (congrArg (k.files.files[·]?) (hsince.key file)).trans
        (hsince.kept _ source hs)
      cases hn.symm.trans hkept
    · exact .module hs hname hr
    · exact .types hs hname hr

end Compilation

def MemoryFiles.dangling : MemoryFiles := ⟨[(⟨"/a.ts"⟩, "/b.ts")]⟩

namespace Compilation

open Analysis (Walk)

def danglingWalk : Walk :=
  (Walk.visit (.importing .dangling) []
    (((make [] .sensitive).walk ⟨"/a.ts"⟩).enter ⟨"/a.ts"⟩ []) ⟨"/a.ts"⟩).state

theorem result_dangling : ((check (.importing .dangling) ⟨"/a.ts"⟩).run (make [] .sensitive)).result =
    .error (.unreadable ⟨"/b.ts"⟩ (.unknown ⟨"/b.ts"⟩)) := by
  have hstart : ((make [] .sensitive).walk ⟨"/a.ts"⟩).queue = [⟨"/a.ts"⟩] := by decide +kernel
  have hnext : danglingWalk.queue = [⟨"/b.ts"⟩] := by decide +kernel
  have hfails : (Walk.visit (.importing .dangling) [] (danglingWalk.enter ⟨"/b.ts"⟩ [])
      ⟨"/b.ts"⟩).result = .error (.unreadable ⟨"/b.ts"⟩ (.unknown ⟨"/b.ts"⟩)) := by decide +kernel
  have hstop := Walk.explore_of_visit_error hnext (by decide +kernel) hfails
  have hexplore : (Walk.explore (.importing .dangling) []
      ((make [] .sensitive).walk ⟨"/a.ts"⟩)).result =
        (Walk.explore (.importing .dangling) [] danglingWalk).result := by
    rw [Walk.explore_of_visit_ok (.importing .dangling) [] hstart (by decide +kernel)
      (by decide +kernel)]
    rfl
  have hrun := (Walk.run_eq_explore (.importing .dangling) [] ((make [] .sensitive).walk ⟨"/a.ts"⟩)).1
  rw [run_check]
  exact congrArg (Except.map _) (hrun.trans (hexplore.trans
    ((congrArg Outcome.result hstop).trans hfails)))

/-- The missing file is named, and counts as visited. -/
theorem failed_check_contained_dangling :
    let o := (check (.importing .dangling) ⟨"/a.ts"⟩).run (make [] .sensitive)
    o.result = .error (.unreadable ⟨"/b.ts"⟩ (.unknown ⟨"/b.ts"⟩)) ∧
      o.state.validity? ⟨"/b.ts"⟩ = some .invalid := by
  intro o
  obtain ⟨⟨front, file, hvisited, hfailure⟩, hcontained⟩ :=
    failed_check_contained (c := make [] .sensitive) rfl result_dangling
  refine ⟨result_dangling, ?_⟩
  cases hfailure with
  | unreadable _ _ =>
    exact hcontained.invalid _ (hvisited ▸ List.mem_append_right front List.mem_cons_self)

end Compilation

end TypedLoader
