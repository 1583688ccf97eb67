import TypedLoader.Proofs.Alone
import TypedLoader.Proofs.Analysis.Faithful
import TypedLoader.Proofs.Program

namespace TypedLoader

open TypedLoader.Action (Keeps)

theorem Analysis.Walk.getElem?_run (w : World) (options : Json.Object) (k : Walk) {key : String}
    {source : SourceFile} (h : k.files.files[key]? = some source) :
    (run w options k).state.files.files[key]? = some source := by
  have hvisit {k k' : Walk} {file : Path} {r : Except CompileError Unit} {calls : List Call}
      (hv : visit w options k file = ⟨r, k', calls⟩) (h : k.files.files[key]? = some source) :
      k'.files.files[key]? = some source := by
    rcases visits_of_visit hv with rfl | ⟨text, new, added, hvis⟩
    · exact h
    · exact hvis.loads.getElem? h
  fun_induction run w options k with
  | case1 k hq => exact h
  | case2 k file queue hq hv _ ih => exact ih h
  | case3 k file queue hq hv e k' calls hvis =>
    have hstored := hvisit hvis h
    exact hstored
  | case4 k file queue hq hv next calls hvis _ ih => exact ih (hvisit hvis h)

namespace Compilation

variable {w : World} {p : Path} {text : String} {transpileOnly : Bool}
  {build : Host → Except String Program} {c c' : Compilation}

theorem run_compile (w : World) (p : Path) (text : String) (transpileOnly : Bool)
    (c : Compilation) :
    let o := (sync w p text).run c
    let emitted := (emitOrTranspile w p transpileOnly).run o.state
    ((compile w p text transpileOnly).run c).result = (o.result.bind fun _ ↦
        emitted.result.map fun output ↦ ⟨output, FileDeps.collect o.state.deps p⟩) ∧
      ((compile w p text transpileOnly).run c).state.dropProgram = o.state.dropProgram := by
  intro o emitted
  have hdrop := dropProgram_emitOrTranspile w p transpileOnly o.state
  have hdeps : emitted.state.dropProgram.deps = o.state.dropProgram.deps := by rw [hdrop]
  have hdeps : emitted.state.deps = o.state.deps := hdeps
  rw [compile]
  cases hsync : o.result with
  | error e =>
    rw [Action.run_bind_of_error hsync]
    exact ⟨rfl, rfl⟩
  | ok u =>
    rw [Action.run_bind_of_ok hsync]
    cases hemit : emitted.result with
    | error e =>
      rw [Action.run_bind_of_error hemit]
      exact ⟨rfl, hdrop⟩
    | ok output =>
      rw [Action.run_bind_of_ok hemit, ← hdeps]
      exact ⟨rfl, hdrop⟩

theorem options_sync (w : World) (p : Path) (text : String) (c : Compilation) :
    ((sync w p text).run c).state.options = c.options :=
  keeps_sync (P := fun c' ↦ c'.options = c.options) (fun d h ↦ (received_eq d p text).2.2.trans h)
    (fun d h ↦ by rw [run_check]; exact h) (fun _ h ↦ h) c rfl

theorem files_sync (w : World) (p : Path) (text : String) (c : Compilation) :
    ((sync w p text).run c).state.files = ((check w p).run (c.received p text)).state.files := by
  rw [run_sync, Action.run_bind]
  rcases (check w p).run (c.received p text) with ⟨e | analysed, d, calls⟩
  · rfl
  · simp only
    split <;> rfl

theorem Tidy.case_check (h : c.Tidy) (w : World) (p : Path) :
    ((Compilation.check w p).run c).state.files.case = c.files.case := by
  rcases state_check_cases w p c with ⟨k, hsteps, -, hstate⟩ |
    ⟨k, file, queue, k', new, added, hsteps, hq, hv, ht, -, hstate⟩
  · rw [hstate]
    exact ((h.from_walk p).steps hsteps).case
  · rw [hstate]
    exact (((h.from_walk p).steps hsteps).touch hq hv ht).case

theorem Tidy.get?_sync (h : c.Tidy) (w : World) (p : Path) (text : String) :
    ∃ version, ((Compilation.sync w p text).run c).state.get? p =
      some ⟨p.normalize, text, version⟩ := by
  obtain ⟨version, hget⟩ := h.get?_received p text
  have hrun : ((Compilation.check w p).run (c.received p text)).state.files =
      (Analysis.Walk.run w (c.received p text).options ((c.received p text).walk p)).state.files := by
    rw [run_check]
    rfl
  refine ⟨version, ?_⟩
  rw [Compilation.get?, files_sync, FileStore.get?,
    FileStore.key_eq_key_of_case ((h.received p text).case_check w p), hrun]
  exact Analysis.Walk.getElem?_run w _ ((c.received p text).walk p) hget

/-- A script that is made from a text alone depends on the file, the text and the
options. -/
theorem Tidy.result_transpile (h : c.Tidy) (w : World) (p : Path) (text : String) :
    ((emitOrTranspile w p true).run ((Compilation.sync w p text).run c).state).result =
      ((w.compiler.transpile text p.normalize c.options).map fun t ↦ ({
        text := t.text, sourceMap := t.sourceMap, fast := true,
        diagnostics := t.diagnostics } : Compiled)).mapError .compiler := by
  obtain ⟨version, hget⟩ := h.get?_sync w p text
  have hoptions := options_sync w p text c
  generalize ((Compilation.sync w p text).run c).state = c' at hget hoptions
  rw [emitOrTranspile, if_pos rfl, transpile, Action.run_get_bind]
  simp only [hget, hoptions]
  cases w.compiler.transpile text p.normalize c.options <;> rfl

/-- Tidy, with a program that has been built from the files as they were. -/
structure Orderly (build : Host → Except String Program) (c : Compilation) : Prop where
  tidy : c.Tidy
  current : ∃ kept, Current build c kept

theorem orderly_make (build : Host → Except String Program) (options : Json.Object)
    (case : PathCase) : (make options case).Orderly build :=
  ⟨tidy_make options case, [], current_make build options case⟩

theorem Orderly.fresh (h : c.Orderly build) : c.Fresh build :=
  h.current.elim fun _ hc ↦ hc.fresh

theorem changes_received (c : Compilation) (p : Path) (text : String) :
    Changes c (c.received p text) := by
  rw [received]
  split <;> exact ⟨c.files.advances_update p text true, rfl, rfl⟩

theorem Orderly.change (h : c.Orderly build) (hc : Changes c c') (ht : c'.Tidy) :
    c'.Orderly build := ⟨ht, h.current.imp fun _ hk ↦ hk.change hc⟩

theorem Orderly.dropProgram (h : c.Orderly build) : c.dropProgram.Orderly build :=
  ⟨h.tidy.dropProgram, [], Current.drop build c⟩

theorem Orderly.remove (h : c.Orderly build) (p : Path) : (c.remove p).2.Orderly build :=
  h.change ⟨c.files.advances_remove p, rfl, rfl⟩ (h.tidy.remove p)

theorem Orderly.sync (w : World) (p : Path) (text : String) :
    Keeps (Orderly build) (Compilation.sync w p text) := by
  refine keeps_sync (fun c h ↦ ?_) (fun c h ↦ ?_) (fun c h ↦ ?_)
  · obtain ⟨kept, hc⟩ := h.current
    exact ⟨h.tidy.received p text, kept, hc.change (changes_received c p text)⟩
  · obtain ⟨kept, hc⟩ := h.current
    exact ⟨h.tidy.check w p, kept, hc.change (changes_check w p c)⟩
  · exact ⟨h.tidy.dropProgram, [], Current.drop build c⟩

theorem Orderly.register (w : World) (p : Path) (text : String) :
    Keeps (Orderly build) (Compilation.register w p text) :=
  keeps_register (Orderly.sync w p text)

theorem Orderly.emitOrTranspile (hw : w.compiler.build = build) (p : Path) (transpileOnly : Bool) :
    Keeps (Orderly build) (Compilation.emitOrTranspile w p transpileOnly) := by
  intro c h
  obtain ⟨kept, hc⟩ := h.current
  have hop : Operation.BuildsBy build (.emitOrTranspile w p transpileOnly) := hw
  obtain ⟨hleads, -⟩ := Operation.leads hop c
  exact ⟨keeps_emitOrTranspile w p (fun _ _ h ↦ ⟨h.case, h.kept, h.stored⟩) transpileOnly c h.tidy,
    _, hc.leads hleads⟩

theorem Orderly.compile (hw : w.compiler.build = build) (p : Path) (text : String)
    (transpileOnly : Bool) : Keeps (Orderly build) (Compilation.compile w p text transpileOnly) :=
  .bind (Orderly.sync w p text) fun _ ↦ .bind (Orderly.emitOrTranspile hw p transpileOnly) fun _ ↦
    .bind Action.keeps_get fun _ ↦ Action.keeps_pure _

theorem received_withBuilt (c : Compilation) (built : Option BuiltProgram) (p : Path)
    (text : String) : ({ c with built } : Compilation).received p text =
      { c.received p text with built } := by
  have hstored : (({ c with built } : Compilation).update p text true).1 =
      (c.update p text true).1 := rfl
  rw [received, received, hstored]
  split <;> rfl

theorem sync_of_dropProgram (w : World) (p : Path) (text : String)
    (h : c'.dropProgram = c.dropProgram) :
    ((sync w p text).run c').result = ((sync w p text).run c).result ∧
      ((sync w p text).run c').state.dropProgram =
        ((sync w p text).run c).state.dropProgram := by
  have hc : c' = { c with built := c'.built } := by
    obtain ⟨hoptions, hfiles, hdeps, hmarks, -⟩ := Compilation.mk.inj h
    rw [← hoptions, ← hfiles, ← hdeps, ← hmarks]
  rw [hc, run_sync, run_sync, received_withBuilt]
  generalize c.received p text = d
  have hwalk : ({ d with built := c'.built } : Compilation).walk p = d.walk p := rfl
  rw [Action.run_bind, Action.run_bind, run_check, run_check, hwalk]
  dsimp only
  cases (Analysis.Walk.run w d.options (d.walk p)).result with
  | error e => exact ⟨rfl, rfl⟩
  | ok u =>
    simp only [Except.map]
    split <;> exact ⟨rfl, rfl⟩

/-- Two compilations that differ at most in the program that is kept. -/
structure Matched (build : Host → Except String Program) (c c' : Compilation) : Prop where
  same : c'.dropProgram = c.dropProgram
  left : c.Orderly build
  right : c'.Orderly build

theorem Matched.sync (h : Matched build c c') (w : World) (p : Path) (text : String) :
    ((Compilation.sync w p text).run c').result = ((Compilation.sync w p text).run c).result ∧
      Matched build ((Compilation.sync w p text).run c).state
        ((Compilation.sync w p text).run c').state := by
  obtain ⟨hresult, hsame⟩ := sync_of_dropProgram w p text h.same
  exact ⟨hresult, hsame, Orderly.sync w p text c h.left, Orderly.sync w p text c' h.right⟩

end Compilation

end TypedLoader
