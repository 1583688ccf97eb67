import TypedLoader.Checker.Findings
import TypedLoader.CompiledModule
import TypedLoader.Proofs.Analysis.Closed
import TypedLoader.Proofs.Analysis.Visited
import TypedLoader.Proofs.Dependencies.Graph

namespace TypedLoader

open Relation (ReflTransGen)
open TypedLoader.Action (Keeps)
open Analysis (Walk)

namespace Analysis

theorem isValid_of_insert_invalid {marks : Marks} {key key' : String}
    (h : isValid (marks.insert key .invalid) key' = true) :
    key ≠ key' ∧ isValid marks key' = true := by
  rw [isValid, Std.ExtTreeMap.getElem?_insert] at h
  split at h
  · cases h
  · rename_i hne
    exact ⟨fun he ↦ hne (Std.LawfulEqCmp.compare_eq_iff_eq.2 he), h⟩

theorem isValid_of_erase {marks : Marks} {key key' : String}
    (h : isValid (marks.erase key) key' = true) : key ≠ key' ∧ isValid marks key' = true := by
  rw [isValid, Std.ExtTreeMap.getElem?_erase] at h
  split at h
  · cases h
  · rename_i hne
    exact ⟨fun he ↦ hne (Std.LawfulEqCmp.compare_eq_iff_eq.2 he), h⟩

end Analysis

namespace Compilation

/-- The compilation once a text has come in, before it is analysed. A text that
is new makes its file invalid. -/
def received (c : Compilation) (p : Path) (text : String) : Compilation :=
  if (c.update p text true).1 then (c.update p text true).2.invalidate p
  else (c.update p text true).2

theorem run_sync (w : World) (c : Compilation) (p : Path) (text : String) :
    (sync w p text).run c = (do
      let analysed ← check w p
      if analysed.changed then Action.modify dropProgram : Act Unit).run (c.received p text) := by
  rw [sync, Action.run_bind, Action.run_update, received]
  simp only
  cases (c.update p text true).1 with
  | true =>
    simp only [if_true]
    rw [Action.run_bind, Action.run_modify]
    simp only [Outcome.after_nil]
  | false =>
    simp only [Bool.false_eq_true, if_false]
    simp only [Outcome.after_nil]

theorem result_sync {w : World} {c : Compilation} {p : Path} {text : String} {analysed : Analysed}
    (h : ((check w p).run (c.received p text)).result = .ok analysed) :
    ((sync w p text).run c).result = .ok () := by
  rw [run_sync, Action.run_bind_of_ok h]
  split <;> rfl

/-- The compilation once the analysis of a text that has come in is at its end. -/
def settled (c : Compilation) (p : Path) (text : String) (k : Walk) : Compilation :=
  if k.changed then ((c.received p text).withWalk k).dropProgram else (c.received p text).withWalk k

theorem sync_of_ended? {w : World} {c : Compilation} {p : Path} {text : String} {n : Nat} {k : Walk}
    (h : Walk.ended? w (c.received p text).options n ((c.received p text).walk p) = some k) :
    ((sync w p text).run c).result = .ok () ∧
      ((sync w p text).run c).state = c.settled p text k := by
  obtain ⟨hok, hstate⟩ := check_of_ended? h
  refine ⟨result_sync hok, ?_⟩
  rw [run_sync, Action.run_bind_of_ok hok, hstate, settled]
  split <;> rfl

theorem keeps_sync {w : World} {p : Path} {text : String} {P : Compilation → Prop}
    (hreceived : ∀ c, P c → P (c.received p text)) (hcheck : Keeps P (check w p))
    (hdrop : ∀ c, P c → P c.dropProgram) : Keeps P (sync w p text) := by
  intro c h
  rw [run_sync]
  have hanalyse : Keeps P (check w p >>= fun analysed ↦
      if analysed.changed then Action.modify dropProgram else pure ()) := by
    refine .bind hcheck ?_
    intro analysed
    split
    · exact Action.keeps_modify hdrop
    · exact Action.keeps_pure ()
  exact hanalyse _ (hreceived c h)

/-- Store and dependencies use the same keys, and valid files are stored. -/
structure Tidy (c : Compilation) : Prop where
  case : c.deps.case = c.files.case
  kept : c.files.Kept
  stored : ∀ key, Analysis.isValid c.marks key = true → key ∈ c.files.files

section Tidy

variable {w : World} {c : Compilation} {p : Path}

theorem tidy_make (options : Json.Object) (case : PathCase) : (make options case).Tidy :=
  ⟨rfl, FileStore.kept_empty case, (closed_make options case).stored⟩

theorem Tidy.update (h : c.Tidy) (p : Path) (text : String) (checked : Bool) :
    (c.update p text checked).2.Tidy where
  case := h.case.trans (FileStore.case_update c.files p text checked).symm
  kept := h.kept.update p text checked
  stored key hv := (FileStore.mem_update h.kept p text checked key).2 (Or.inr (h.stored key hv))

theorem Tidy.invalidate (h : c.Tidy) (p : Path) : (c.invalidate p).Tidy :=
  ⟨h.case, h.kept, fun key hv ↦ h.stored key (Analysis.isValid_of_insert_invalid hv).2⟩

theorem Tidy.remove (h : c.Tidy) (p : Path) : (c.remove p).2.Tidy := by
  refine ⟨h.case.trans (FileStore.case_remove c.files p).symm, h.kept.remove p, ?_⟩
  intro key hv
  obtain ⟨hne, hv⟩ := Analysis.isValid_of_erase hv
  exact (FileStore.mem_remove c.files p key).2 ⟨hne, h.stored key hv⟩

theorem Tidy.dropProgram (h : c.Tidy) : c.dropProgram.Tidy := ⟨h.case, h.kept, h.stored⟩

theorem Tidy.from_walk (h : c.Tidy) (p : Path) : Walk.From (c.walk p) (c.walk p) :=
  Walk.from_start h.case rfl

/-- An analysis that fails takes back all that it made valid; one that succeeds
has stored it. -/
theorem Tidy.check (h : c.Tidy) (w : World) (p : Path) : ((check w p).run c).state.Tidy := by
  have hstart : (c.walk p).Covered fun _ ↦ True :=
    ⟨h.case, h.stored, fun _ _ _ _ ↦ Or.inr trivial, fun _ _ ↦ Or.inr trivial⟩
  rcases state_check_cases w p c with ⟨k, hsteps, -, hstate⟩ |
    ⟨k, file, queue, k', new, added, hsteps, hq, hv, ht, -, hstate⟩
  · rw [hstate]
    have hfrom := (h.from_walk p).steps hsteps
    exact ⟨hfrom.deps_case, hfrom.kept h.kept, (hstart.steps hsteps).stored⟩
  · rw [hstate]
    have hfrom := ((h.from_walk p).steps hsteps).touch hq hv ht
    exact ⟨(Walk.abandon_case k').trans hfrom.deps_case, hfrom.kept h.kept,
      fun key hkey ↦ hfrom.stored key (h.stored key ((hfrom.isValid_abandon key).1 hkey))⟩

theorem Tidy.received (h : c.Tidy) (p : Path) (text : String) : (c.received p text).Tidy := by
  rw [Compilation.received]
  split
  · exact (h.update p text true).invalidate p
  · exact h.update p text true

end Tidy

section Building

-- a property that does not depend on the program last built
variable (w : World) (p : Path) {P : Compilation → Prop}
  (hP : ∀ (c : Compilation) (built : Option BuiltProgram), P c → P { c with built })

include hP

theorem keeps_program : Keeps P (program w) := by
  apply Action.keeps_get_bind
  intro c h
  split
  · exact Action.keeps_pure _ c h
  · split
    · exact (Action.keeps_call _).bind (fun _ ↦ Action.keeps_fail _) c h
    · exact hP c _ h

theorem keeps_emitOutput : Keeps P (emitOutput w p) := by
  refine .bind (keeps_program w hP) ?_
  intro first
  split
  all_goals
    first
    | refine .bind (Action.keeps_pure first) fun latest ↦ ?_
    | refine .bind (Action.keeps_modify fun c h ↦ hP c none h) fun _ ↦
        .bind (keeps_program w hP) fun latest ↦ ?_
    simp only
    split
    · split
      · exact Action.keeps_pure _
      · exact Action.keeps_fail _
    · exact Action.keeps_fail _

theorem keeps_emit : Keeps P (emit w p) := by
  refine .bind (keeps_emitOutput w p hP) ?_
  intro output
  split
  · exact Action.keeps_fail _
  · split
    · exact Action.keeps_fail _
    · exact Action.keeps_pure _

omit hP in
theorem keeps_transpile : Keeps P (transpile w p) := by
  refine .bind Action.keeps_get ?_
  intro c
  split
  · exact Action.keeps_fail _
  · split
    · exact .bind (Action.keeps_call _) fun _ ↦ Action.keeps_fail _
    · exact .bind (Action.keeps_call _) fun _ ↦ Action.keeps_pure _

theorem keeps_emitOrTranspile (transpileOnly : Bool) :
    Keeps P (emitOrTranspile w p transpileOnly) := by
  rw [emitOrTranspile]
  split
  · exact keeps_transpile w p
  refine .bind (keeps_emit w p hP).attempt ?_
  intro result
  split
  · exact Action.keeps_pure _
  · split
    · refine .bind (keeps_transpile w p) fun fast ↦ .bind Action.keeps_get ?_
      intro c
      split
      · exact Action.keeps_fail _
      · exact Action.keeps_pure _
    · exact Action.keeps_fail _

theorem keeps_reports (f : DiagnosticFilter) (context : Path) : Keeps P (reports w f context) := by
  refine .bind (.mapError (keeps_program w hP) _) fun program ↦ .bind Action.keeps_get ?_
  intro c
  split
  · exact Action.keeps_pure _
  · exact Action.keeps_fail _

end Building

section Modules

variable {w : World} {p : Path} {text : String} {P : Compilation → Prop}

theorem keeps_register (h : Keeps P (sync w p text)) : Keeps P (register w p text) :=
  .bind h fun _ ↦ .bind Action.keeps_get fun _ ↦ Action.keeps_pure _

theorem keeps_compile (h : Keeps P (sync w p text))
    (hP : ∀ (c : Compilation) (built : Option BuiltProgram), P c → P { c with built })
    (transpileOnly : Bool) : Keeps P (compile w p text transpileOnly) :=
  .bind h fun _ ↦ .bind (keeps_emitOrTranspile w p hP transpileOnly) fun _ ↦
    .bind Action.keeps_get fun _ ↦ Action.keeps_pure _

end Modules

/-- The key of a file that is not valid, although a valid file leads to it or it
is known as a declaration file. No analysis that starts elsewhere needs to visit
it. -/
def Loose (c : Compilation) (key : String) : Prop :=
  Analysis.isValid c.marks key = false ∧
    (key ∈ c.deps.declarations ∨
      ∃ key', Analysis.isValid c.marks key' = true ∧ c.deps.LeadsTo key' key)

/-- A text has come in and has been analysed with all that it reaches. Since then
at most the program has been built. -/
structure Synced (w : World) (c : Compilation) (p : Path) (text : String) (c' : Compilation) :
    Prop where
  analysed : ∃ analysed, ((check w p).run (c.received p text)).result = .ok analysed
  files : c'.files = ((check w p).run (c.received p text)).state.files
  deps : c'.deps = ((check w p).run (c.received p text)).state.deps
  marks : c'.marks = ((check w p).run (c.received p text)).state.marks

/-- A key that an analysis of `p` comes to, when it finds `c` and leaves `c'`. -/
def ComesTo (c c' : Compilation) (p : Path) (key : String) : Prop :=
  c.isValid p = false ∧
    ReflTransGen (Analysis.Follows c.marks c.deps c'.deps) (c.files.key p) key

section Received

variable {w : World} {c : Compilation} {p : Path} {text : String}

theorem isValid_of_received {key : String}
    (h : Analysis.isValid (c.received p text).marks key = true) :
    Analysis.isValid c.marks key = true := by
  rw [received] at h
  split at h
  · exact (Analysis.isValid_of_insert_invalid h).2
  · exact h

theorem Tidy.covered (h : c.Tidy) (p : Path) : (c.walk p).Covered c.Loose := by
  refine ⟨h.case, h.stored, ?_, ?_⟩
  · intro key hv e he
    cases ht : Analysis.isValid c.marks (c.files.key e.target) with
    | true => exact Or.inl (Or.inl ht)
    | false =>
      have hkey := Analysis.key_eq_files_key h.case e.target
      exact Or.inr ⟨ht, Or.inr ⟨key, hv, e, he, hkey⟩⟩
  · intro key hk
    cases ht : Analysis.isValid c.marks key with
    | true => exact Or.inl (Or.inl ht)
    | false => exact Or.inr ⟨ht, Or.inl hk⟩

theorem Tidy.check_ok (h : c.Tidy) {analysed : Analysed}
    (hok : ((Compilation.check w p).run c).result = .ok analysed) :
    let c' := ((Compilation.check w p).run c).state
    Analysis.isValid c'.marks (c'.deps.key p) = true ∧
      ∀ key key', Analysis.isValid c'.marks key = true → c'.deps.LeadsTo key key' →
        Analysis.isValid c'.marks key' = true ∨ c.Loose key' := by
  obtain ⟨k, hsteps, hq, hstate⟩ := walk_of_check_ok hok
  have hfrom := (h.from_walk p).steps hsteps
  have hcovered := (h.covered p).steps hsteps
  rw [hstate]
  refine ⟨?_, ?_⟩
  · have hkey : k.deps.key p = c.files.key p := (hfrom.deps_key p).trans (hfrom.key p)
    exact hkey.symm ▸ isValid_of_steps hsteps hq
  · intro key key' hv hleads
    obtain ⟨e, he, rfl⟩ := hleads
    have htarget := hcovered.edges key hv e he
    rw [← hfrom.deps_key] at htarget
    exact htarget.imp_left fun hs ↦ hs.valid hq

theorem Tidy.isValid_check (h : c.Tidy) {analysed : Analysed}
    (hok : ((Compilation.check w p).run c).result = .ok analysed) (key : String) :
    let c' := ((Compilation.check w p).run c).state
    Analysis.isValid c'.marks key = true ↔
      Analysis.isValid c.marks key = true ∨ c.ComesTo c' p key := by
  obtain ⟨k, hsteps, hq, hstate⟩ := walk_of_check_ok hok
  have hspreads : Walk.Spreads (c.walk p) (c.walk p) (c.files.key p) := by
    apply Walk.spreads_start rfl
    intro q hm
    obtain rfl := List.mem_singleton.1 hm
    exact c.files.case.key_normalize p
  rw [hstate]
  exact (hspreads.steps (h.from_walk p) hsteps).isValid_iff ((h.from_walk p).steps hsteps) hq
    (isValid_of_steps hsteps hq) key

theorem synced_sync (h : ((sync w p text).run c).result = .ok ()) :
    Synced w c p text ((sync w p text).run c).state := by
  rw [run_sync] at h ⊢
  obtain ⟨analysed, hcheck, -, hstate⟩ := Action.run_bind_ok h
  rw [hstate]
  split <;> exact ⟨⟨analysed, hcheck⟩, rfl, rfl, rfl⟩

theorem run_register (w : World) (p : Path) (text : String) (c : Compilation) :
    let o := (sync w p text).run c
    ((register w p text).run c).result = o.result.map (fun _ ↦ FileDeps.collect o.state.deps p) ∧
      ((register w p text).run c).state = o.state := by
  intro o
  rw [register]
  cases hsync : o.result with
  | error e =>
    rw [Action.run_bind_of_error hsync]
    exact ⟨rfl, rfl⟩
  | ok u =>
    rw [Action.run_bind_of_ok hsync]
    exact ⟨rfl, rfl⟩

theorem synced_register {deps : FileDeps} (h : ((register w p text).run c).result = .ok deps) :
    let c' := ((register w p text).run c).state
    Synced w c p text c' ∧ deps = FileDeps.collect c'.deps p := by
  rw [register] at h ⊢
  obtain ⟨u, hsync, hrest, hstate⟩ := Action.run_bind_ok h
  rw [hstate]
  exact ⟨synced_sync hsync, (Except.ok.inj hrest).symm⟩

theorem synced_compile {transpileOnly : Bool} {m : CompiledModule}
    (h : ((compile w p text transpileOnly).run c).result = .ok m) :
    let c' := ((compile w p text transpileOnly).run c).state
    Synced w c p text c' ∧ m.deps = FileDeps.collect c'.deps p := by
  rw [compile] at h ⊢
  obtain ⟨u, hsync, hrest, hstate⟩ := Action.run_bind_ok h
  obtain ⟨output, hemit, hlast, hstate'⟩ := Action.run_bind_ok hrest
  rw [hstate, hstate']
  refine ⟨?_, (congrArg CompiledModule.deps (Except.ok.inj hlast)).symm⟩
  exact keeps_emitOrTranspile w p (P := Synced w c p text)
    (fun _ _ hs ↦ ⟨hs.analysed, hs.files, hs.deps, hs.marks⟩) transpileOnly _ (synced_sync hsync)

theorem Synced.tidy {c' : Compilation} (hs : Synced w c p text c') (h : c.Tidy) : c'.Tidy := by
  have ht := (h.received p text).check w p
  refine ⟨?_, ?_, ?_⟩
  · rw [hs.deps, hs.files]
    exact ht.case
  · rw [hs.files]
    exact ht.kept
  · rw [hs.marks, hs.files]
    exact ht.stored

theorem Synced.isValid_iff {c' : Compilation} (hs : Synced w c p text c') (h : c.Tidy)
    (key : String) : Analysis.isValid c'.marks key = true ↔
      Analysis.isValid (c.received p text).marks key = true ∨
        (c.received p text).ComesTo c' p key := by
  obtain ⟨analysed, hok⟩ := hs.analysed
  rw [hs.marks, ComesTo, hs.deps]
  exact (h.received p text).isValid_check hok key

theorem Synced.isValid_of_reached {c' : Compilation} (hs : Synced w c p text c') (h : c.Tidy)
    (hloose : ∀ q ∈ (FileDeps.collect c'.deps p).all,
      (c.received p text).Loose (c'.files.key q) →
        (c.received p text).ComesTo c' p (c'.files.key q)) {key : String}
    (hr : ReflTransGen c'.deps.LeadsTo (c'.deps.key p) key) :
    Analysis.isValid c'.marks key = true := by
  obtain ⟨analysed, hok⟩ := hs.analysed
  obtain ⟨hroot, hleads⟩ := (h.received p text).check_ok hok
  rw [← hs.deps, ← hs.marks] at hroot
  rw [← hs.deps, ← hs.marks] at hleads
  induction hr with
  | refl => exact hroot
  | @tail key key' hr hstep ih =>
    rcases hleads key key' ih hstep with hv | hl
    · exact hv
    -- what was loose is the file itself or one of those listed
    · rcases (FileDeps.mem_collect c'.deps p key').2 (hr.tail hstep) with rfl | ⟨q, hq, rfl⟩
      · exact hroot
      · rw [Analysis.key_eq_files_key (hs.tidy h).case] at hl ⊢
        exact (hs.isValid_iff h _).2 (Or.inr (hloose q hq hl))

/-- Everything that a module depends on is stored and valid exactly when the
analysis comes to what was loose among it. -/
theorem Synced.collect_iff {c' : Compilation} (hs : Synced w c p text c') (h : c.Tidy) :
    let deps := FileDeps.collect c'.deps p
    (∀ q ∈ deps.all, c'.has q = true ∧ c'.isValid q = true) ↔
      ∀ q ∈ deps.all, (c.received p text).Loose (c'.files.key q) →
        (c.received p text).ComesTo c' p (c'.files.key q) := by
  intro deps
  refine ⟨?_, ?_⟩
  · intro hall q hq hl
    refine ((hs.isValid_iff h _).1 (hall q hq).2).resolve_left ?_
    rw [hl.1]
    exact Bool.false_ne_true
  · intro hloose q hq
    have htidy := hs.tidy h
    have hv := hs.isValid_of_reached h hloose
      ((FileDeps.mem_collect c'.deps p _).1 (Or.inr ⟨q, hq, rfl⟩))
    rw [Analysis.key_eq_files_key htidy.case] at hv
    exact ⟨Std.ExtTreeMap.contains_iff_mem.2 (htidy.stored _ hv), hv⟩

end Received

end Compilation

end TypedLoader
