import TypedLoader.Proofs.Program

namespace TypedLoader

/-- Nothing is emitted for a file: it is not in the program, the compiler declines, or there is no
script among what is emitted. -/
inductive Program.Omits (latest : Program) (p : Path) : CompileError → Prop
  | missing (hc : latest.contains p = false) : Omits latest p (.noOutput p)
  | skipped {output : EmitOutput} (hc : latest.contains p = true)
      (he : latest.emit p = .ok output) (hs : output.skipped = true) : Omits latest p (.skipped p)
  | scriptless {output : EmitOutput} (hc : latest.contains p = true)
      (he : latest.emit p = .ok output) (hs : output.skipped = false)
      (hn : output.script? = none) : Omits latest p (.noOutput p)

namespace Compilation

variable {w w' : World} {c c' : Compilation} {p : Path}

theorem run_program_of_current {latest : Program} (hc : c.current? = some latest) (w : World) :
    (program w).run c = ⟨.ok latest, c, []⟩ := by
  rw [run_program, hc]
  rfl

theorem run_program_of_refused {reason : String} (hc : c.current? = none)
    (hb : w.compiler.build c.host = .error reason) :
    (program w).run c = ⟨.error (.compiler reason), c, [.build false]⟩ := by
  rw [run_program, hc]
  simp only [hb]
  rfl

/-- The program that is asked for is kept, or it will be refused again. -/
theorem program_cases (w : World) (c : Compilation) :
    let o := (program w).run c
    (∃ latest, o.result = .ok latest ∧ o.state.current? = some latest) ∨
      ∃ reason, o.result = .error (.compiler reason) ∧ o.state.current? = none ∧
        w.compiler.build o.state.host = .error reason := by
  intro o
  simp only [o]
  rcases run_program_cases w c with
    ⟨latest, hc, hrun⟩ | ⟨hc, reason, hb, hrun⟩ | ⟨-, latest, -, hrun⟩
  · rw [hrun]
    exact Or.inl ⟨latest, rfl, hc⟩
  · rw [hrun]
    exact Or.inr ⟨reason, rfl, hc, hb⟩
  · rw [hrun]
    exact Or.inl ⟨latest, rfl, current?_eq_some.2 ⟨_, rfl, rfl, rfl⟩⟩

def output (latest : Program) (p : Path) : Except CompileError EmitOutput :=
  if latest.contains p then (latest.emit p).mapError .compiler else .error (.noOutput p)

theorem run_emitted (latest : Program) (p : Path) (c : Compilation) :
    (if latest.contains p then
      match latest.emit p with
      | .ok output => pure output
      | .error reason => Action.fail (.compiler reason)
      else Action.fail (.noOutput p) : Act EmitOutput).run c = ⟨output latest p, c, []⟩ := by
  rw [output]
  split
  · cases latest.emit p <;> rfl
  · rfl

theorem run_emitOutput (w : World) (p : Path) (c : Compilation) :
    let first := (program w).run c
    let second := (program w).run first.state.dropProgram
    (∃ e, first.result = .error e ∧
      (emitOutput w p).run c = ⟨.error e, first.state, first.calls⟩) ∨
    ∃ latest, first.result = .ok latest ∧
      (latest.contains p.normalize = true ∧
          (emitOutput w p).run c = ⟨output latest p.normalize, first.state, first.calls⟩ ∨
        latest.contains p.normalize = false ∧
          (emitOutput w p).run c = ⟨second.result.bind (output · p.normalize), second.state,
            first.calls ++ second.calls⟩) := by
  intro first second
  rw [emitOutput]
  cases hfirst : first.result with
  | error e =>
    rw [Action.run_bind_of_error hfirst]
    exact Or.inl ⟨e, rfl, rfl⟩
  | ok latest =>
    refine Or.inr ⟨latest, rfl, ?_⟩
    rw [Action.run_bind_of_ok hfirst]
    cases hc : latest.contains p.normalize with
    | true =>
      have hgiven := congrArg (Outcome.after first.calls)
        (run_emitted latest p.normalize first.state)
      rw [Outcome.after_still] at hgiven
      rw [if_pos rfl, Action.run_pure_bind]
      exact Or.inl ⟨rfl, hgiven⟩
    | false =>
      have hagain := Action.run_bind_of_still_after (a := program w)
        (fun latest ↦ run_emitted latest p.normalize) first.state.dropProgram
      rw [if_neg Bool.false_ne_true,
        Action.run_bind_of_ok (a := Action.modify dropProgram) (x := ()) rfl]
      exact Or.inr ⟨rfl, congrArg (Outcome.after first.calls) hagain⟩

def scriptOf (p : Path) (output : EmitOutput) : Except CompileError Compiled :=
  if output.skipped then .error (.skipped p)
  else
    match output.script? with
    | none => .error (.noOutput p)
    | some script => .ok { text := script.text, sourceMap := output.sourceMap?.map (·.text) }

theorem run_emit (w : World) (p : Path) (c : Compilation) :
    let o := (emitOutput w p).run c
    (emit w p).run c = ⟨o.result.bind (scriptOf p.normalize), o.state, o.calls⟩ := by
  rw [emit]
  refine Action.run_bind_of_still_after (fun output c ↦ ?_) c
  rw [scriptOf]
  split
  · rfl
  · cases output.script? <;> rfl

theorem run_transpile (h : c'.dropProgram = c.dropProgram) (w : World) (p : Path) :
    let fast := (transpile w p).run c
    (transpile w p).run c' = ⟨fast.result, c', fast.calls⟩ := by
  intro fast
  simp only [fast]
  obtain ⟨hoptions, hfiles, -⟩ := Compilation.mk.inj h
  rw [transpile, Action.run_get_bind, Action.run_get_bind, get?, get?, hoptions, hfiles]
  cases c.files.get? p with
  | none => rfl
  | some file =>
    simp only
    cases w.compiler.transpile file.text file.path c.options <;> rfl

theorem emission_of_omits {latest : Program} {e : CompileError} (h : latest.Omits p e) :
    (output latest p).bind (scriptOf p) = .error e ∧ e.isMissingOutput = true := by
  cases h with
  | missing hc =>
    rw [output, hc]
    exact ⟨rfl, rfl⟩
  | skipped hc he hs =>
    rw [output, if_pos hc, he]
    exact ⟨if_pos hs, rfl⟩
  | scriptless hc he hs hn =>
    rw [output, if_pos hc, he]
    refine ⟨(if_neg (by simp [hs])).trans ?_, rfl⟩
    rw [hn]

theorem emission_of_script {latest : Program} {o : EmitOutput} {script : OutputFile}
    (hc : latest.contains p = true) (he : latest.emit p = .ok o) (hs : o.skipped = false)
    (hscript : o.script? = some script) : (output latest p).bind (scriptOf p) =
      .ok { text := script.text, sourceMap := o.sourceMap?.map (·.text) } := by
  rw [output, if_pos hc, he]
  refine (if_neg (by simp [hs])).trans ?_
  rw [hscript]

theorem emission_of_error {latest : Program} {reason : String} (hc : latest.contains p = true)
    (he : latest.emit p = .error reason) :
    (output latest p).bind (scriptOf p) = .error (.compiler reason) := by
  rw [output, if_pos hc, he]
  rfl

/-- What stands for an omitted script. An empty one for a text that is not blank counts as
nothing. -/
def standIn (c : Compilation) (p : Path) (e : CompileError) (made : Compiled) :
    Except CompileError Compiled :=
  if made.text = "" ∧ c.isBlank p = false then .error e else .ok made

theorem standIn_congr (h : c'.dropProgram = c.dropProgram) : c'.standIn p = c.standIn p := by
  funext e made
  rw [standIn, standIn, isBlank, isBlank, get?, get?, (Compilation.mk.inj h).2.1]

theorem run_standIn (e : CompileError) (made : Compiled) (c : Compilation) :
    (if made.text.isEmpty && !c.isBlank p then Action.fail e else pure made : Act Compiled).run c =
      ⟨c.standIn p e made, c, []⟩ := by
  have hiff : (made.text.isEmpty && !c.isBlank p) = true ↔
      made.text = "" ∧ c.isBlank p = false := by
    simp
  rw [standIn]
  split
  · rename_i h
    rw [if_pos (hiff.1 h)]
    rfl
  · rename_i h
    rw [if_neg (hiff.not.1 h)]
    rfl

theorem run_emitOrTranspile_of_missing {e : CompileError}
    (he : ((emit w p).run c).result = .error e) (hm : e.isMissingOutput = true) :
    let emitted := (emit w p).run c
    let fast := (transpile w p).run c
    (emitOrTranspile w p false).run c =
      ⟨fast.result.bind (c.standIn p e), emitted.state, emitted.calls ++ fast.calls⟩ := by
  intro emitted fast
  have hsame : emitted.state.dropProgram = c.dropProgram := dropProgram_emit w p c
  have hfast := run_transpile hsame w p
  have hinstead : (do
      let made ← transpile w p
      let c ← Action.get
      if made.text.isEmpty && !c.isBlank p then Action.fail e else pure made
        : Act Compiled).run emitted.state =
        ⟨fast.result.bind (c.standIn p e), emitted.state, fast.calls⟩ := by
    cases hr : fast.result with
    | error e' =>
      rw [Action.run_bind_of_error (by rw [hfast]; exact hr), hfast]
      rfl
    | ok made =>
      rw [Action.run_bind_of_ok (by rw [hfast]; exact hr), Action.run_get_bind, run_standIn,
        Outcome.after_still, hfast, standIn_congr hsame]
      rfl
  rw [emitOrTranspile, if_neg Bool.false_ne_true, Action.run_attempt_bind, he]
  simp only [hm, if_true]
  exact congrArg (Outcome.after emitted.calls) hinstead

theorem run_emitOrTranspile_of_not_missing
    (h : ∀ e, ((emit w p).run c).result = .error e → e.isMissingOutput = false) :
    (emitOrTranspile w p false).run c = (emit w p).run c := by
  rw [emitOrTranspile, if_neg Bool.false_ne_true, Action.run_attempt_bind]
  generalize (emit w p).run c = emitted at h ⊢
  rcases emitted with ⟨e | compiled, c', calls⟩
  · simp only [h e rfl, Bool.false_eq_true, if_false]
    exact Outcome.after_still calls _ c'
  · exact Outcome.after_still calls _ c'

/-- The program that a file is emitted from: the one at hand, or one that is built. Where that does
not contain the file it is built once more, and the compiler may answer otherwise then. -/
def programFor (w w' : World) (c : Compilation) (p : Path) : Except String Program := do
  let first ← match c.current? with
    | some kept => .ok kept
    | none => w.compiler.build c.host
  if first.contains p then .ok first else w'.compiler.build c.host

/-- Emits in one world what may come from a program that has been asked for in another one. -/
def emitAsked (w w' : World) (p : Path) : Act Compiled := do
  let _ ← program w
  emitOrTranspile w' p false

/-- What comes of a file that is emitted from the program, after these builds. -/
structure Makes (w : World) (c : Compilation) (p : Path) (latest : Except String Program)
    (builds : List Call) (o : Outcome Compilation CompileError Compiled) : Prop where
  refused : ∀ reason, latest = .error reason →
    o.result = .error (.compiler reason) ∧ o.calls = builds
  failed : ∀ program reason, latest = .ok program → program.contains p.normalize = true →
    program.emit p.normalize = .error reason →
    o.result = .error (.compiler reason) ∧ o.calls = builds
  emitted : ∀ program output script, latest = .ok program →
    program.contains p.normalize = true → program.emit p.normalize = .ok output →
    output.skipped = false → output.script? = some script →
    o.result = .ok { text := script.text, sourceMap := output.sourceMap?.map (·.text) } ∧
      o.calls = builds
  omitted : ∀ program e, latest = .ok program → program.Omits p.normalize e →
    o.result = ((transpile w p).run c).result.bind (c.standIn p e) ∧
      o.calls = builds ++ ((transpile w p).run c).calls
  kept : o.state = { c with built := o.state.built }

theorem calls_program (w : World) (c : Compilation) :
    (∀ call ∈ ((program w).run c).calls, call.isBuild = true) ∧
      ((program w).run c).calls.length ≤ 1 := by
  rcases run_program_cases w c with
    ⟨latest, -, hrun⟩ | ⟨-, reason, -, hrun⟩ | ⟨-, latest, -, hrun⟩ <;> rw [hrun] <;>
    simp [Call.isBuild]

theorem eq_of_dropProgram (h : c'.dropProgram = c.dropProgram) :
    c' = { c with built := c'.built } := by
  obtain ⟨hoptions, hfiles, hdeps, hmarks, -⟩ := Compilation.mk.inj h
  rw [← hoptions, ← hfiles, ← hdeps, ← hmarks]

theorem makes_of_emit {latest : Except String Program}
    (h : ((emit w p).run c).result = (latest.mapError .compiler).bind fun program ↦
      (output program p.normalize).bind (scriptOf p.normalize)) :
    Makes w c p latest ((emit w p).run c).calls ((emitOrTranspile w p false).run c) := by
  have hstands {r : Except CompileError Compiled} (hr : ((emit w p).run c).result = r)
      (hm : ∀ e, r = .error e → e.isMissingOutput = false) :
      ((emitOrTranspile w p false).run c).result = r ∧
        ((emitOrTranspile w p false).run c).calls = ((emit w p).run c).calls := by
    rw [run_emitOrTranspile_of_not_missing fun e he ↦ hm e (hr.symm.trans he)]
    exact ⟨hr, rfl⟩
  refine ⟨?_, ?_, ?_, ?_, ?_⟩
  · rintro reason rfl
    exact hstands h (by rintro _ ⟨⟩; rfl)
  · rintro program reason rfl hc he
    exact hstands (h.trans (emission_of_error hc he)) (by rintro _ ⟨⟩; rfl)
  · rintro program o script rfl hc he hs hscript
    exact hstands (h.trans (emission_of_script hc he hs hscript)) (by rintro _ ⟨⟩)
  · rintro program e rfl homits
    obtain ⟨he, hm⟩ := emission_of_omits homits
    rw [run_emitOrTranspile_of_missing (h.trans he) hm]
    exact ⟨rfl, rfl⟩
  · exact eq_of_dropProgram (dropProgram_emitOrTranspile w p false c)

theorem makes_of_current {first : Program} (hc : c.current? = some first) (w : World) (p : Path) :
    ∃ builds, (∀ call ∈ builds, call.isBuild = true) ∧ builds.length ≤ 1 ∧
      Makes w c p (if first.contains p.normalize then .ok first else w.compiler.build c.host)
        builds ((emitOrTranspile w p false).run c) := by
  have hfirst := run_program_of_current hc w
  have hemit := run_emit w p c
  rcases run_emitOutput w p c with ⟨e, he, -⟩ | ⟨latest, hl, hgiven | hagain⟩
  · rw [hfirst] at he
    cases he
  · rw [hfirst] at hl hgiven
    obtain rfl := Except.ok.inj hl
    rw [hgiven.2] at hemit
    rw [if_pos hgiven.1]
    refine ⟨_, ?_, ?_, makes_of_emit (congrArg Outcome.result hemit)⟩ <;> simp [hemit]
  · rw [hfirst] at hl hagain
    obtain rfl := Except.ok.inj hl
    rw [hagain.2, (fresh_dropProgram w.compiler.build c).result_program rfl] at hemit
    rw [if_neg (by simp [hagain.1])]
    obtain ⟨hbuilds, hlength⟩ := calls_program w c.dropProgram
    refine ⟨_, ?_, ?_, makes_of_emit ?_⟩ <;> rw [hemit]
    · exact hbuilds
    · exact hlength
    · have hhost : c.dropProgram.host = c.host := rfl
      rw [hhost]
      cases w.compiler.build c.host <;> rfl

theorem Makes.after {latest : Except String Program} {builds : List Call}
    {o : Outcome Compilation CompileError Compiled} (h : Makes w c' p latest builds o)
    (hsame : c'.dropProgram = c.dropProgram) (calls : List Call) :
    Makes w c p latest (calls ++ builds) (o.after calls) where
  refused reason hl := (h.refused reason hl).imp_right (congrArg (calls ++ ·))
  failed program reason hl hc he :=
    (h.failed program reason hl hc he).imp_right (congrArg (calls ++ ·))
  emitted program output script hl hc he hs hscript :=
    (h.emitted program output script hl hc he hs hscript).imp_right (congrArg (calls ++ ·))
  omitted program e hl homits := by
    obtain ⟨hresult, hcalls⟩ := h.omitted program e hl homits
    rw [run_transpile hsame w p, standIn_congr hsame] at hresult
    rw [run_transpile hsame w p] at hcalls
    exact ⟨hresult, (congrArg (calls ++ ·) hcalls).trans (List.append_assoc ..).symm⟩
  kept := h.kept.trans (by rw [eq_of_dropProgram hsame]; rfl)

/-- Asking for the program beforehand changes nothing. -/
theorem run_emitAsked (w : World) (p : Path) (c : Compilation) :
    (emitAsked w w p).run c = (emitOrTranspile w p false).run c := by
  rw [emitAsked]
  rcases program_cases w c with ⟨latest, hok, hc⟩ | ⟨reason, herr, -⟩
  · -- the program that has been asked for is kept, and emitting finds it
    set asked := (program w).run c
    have hprogram : (program w).run c = ((program w).run asked.state).after asked.calls := by
      rw [run_program_of_current hc, Outcome.after_still, ← hok]
    have houtput : (emitOutput w p).run c =
        ((emitOutput w p).run asked.state).after asked.calls :=
      Action.run_bind_of_after hprogram _
    have hemit : (emit w p).run c = ((emit w p).run asked.state).after asked.calls :=
      Action.run_bind_of_after houtput _
    have hattempt : ((emit w p).attempt : Act (Except CompileError Compiled)).run c =
        ((emit w p).attempt.run asked.state).after asked.calls := by
      rw [Action.run_attempt, Action.run_attempt, hemit]
      rfl
    rw [Action.run_bind_of_ok hok, emitOrTranspile, if_neg Bool.false_ne_true]
    exact (Action.run_bind_of_after hattempt _).symm
  · have hemit : (emit w p).run c =
        ⟨.error (.compiler reason), ((program w).run c).state, ((program w).run c).calls⟩ := by
      rcases run_emitOutput w p c with ⟨e, he, hrun⟩ | ⟨latest, hok, -⟩
      · -- a refusal is no missing output
        obtain rfl := Except.error.inj (herr.symm.trans he)
        rw [run_emit w p c, hrun]
        rfl
      · cases herr.symm.trans hok
    rw [Action.run_bind_of_error herr, run_emitOrTranspile_of_not_missing, hemit]
    rw [hemit]
    rintro _ ⟨⟩
    rfl

/-- Where only transpiling is asked for no program is built. Else the script is the one that is
emitted, wherever the program contains the file and there is one; where nothing is emitted the text
is transpiled, and all other failures stand. A program is built at most twice, and the second time
the compiler may answer otherwise than the first time. Only the program that is kept changes. -/
theorem emitOrTranspile_chooses (w w' : World) (p : Path) (c : Compilation) :
    (emitOrTranspile w p true).run c = (transpile w p).run c ∧
    ((transpile w p).run c).state = c ∧
    (∀ call ∈ ((transpile w p).run c).calls, call.isBuild = false) ∧
    (emitAsked w w p).run c = (emitOrTranspile w p false).run c ∧
    ∃ builds, (∀ call ∈ builds, call.isBuild = true) ∧ builds.length ≤ 2 ∧
      Makes w' c p (programFor w w' c p.normalize) builds ((emitAsked w w' p).run c) := by
  refine ⟨rfl, (idle_transpile w p).1 c, (idle_transpile w p).2 c, run_emitAsked w p c, ?_⟩
  rw [emitAsked, programFor]
  rcases run_program_cases w c with
    ⟨first, hc, hrun⟩ | ⟨hc, reason, hb, hrun⟩ | ⟨hc, first, hb, hrun⟩
  · obtain ⟨builds, hbuilds, hlength, hmakes⟩ := makes_of_current hc w' p
    rw [Action.run_bind_of_ok (congrArg Outcome.result hrun), hrun, hc]
    exact ⟨builds, hbuilds, by omega, hmakes.after rfl []⟩
  · rw [Action.run_bind_of_error (congrArg Outcome.result hrun), hrun, hc]
    simp only [hb]
    refine ⟨[.build false], by simp [Call.isBuild], by simp, ?_, ?_, ?_, ?_, rfl⟩
    · rintro _ ⟨⟩
      exact ⟨rfl, rfl⟩
    · rintro _ _ ⟨⟩
    · rintro _ _ _ ⟨⟩
    · rintro _ _ ⟨⟩
  · -- from here on the program that has been built is at hand
    set kept : Compilation :=
      { c with built := some ⟨c.files.projectVersion, c.files.generation, first⟩ }
    have hkept : kept.current? = some first := current?_eq_some.2 ⟨_, rfl, rfl, rfl⟩
    obtain ⟨builds, hbuilds, hlength, hmakes⟩ := makes_of_current hkept w' p
    rw [Action.run_bind_of_ok (congrArg Outcome.result hrun), hrun, hc]
    simp only [hb]
    have hafter := hmakes.after (c := c) rfl [.build true]
    refine ⟨.build true :: builds, List.forall_mem_cons.2 ⟨rfl, hbuilds⟩, ?_, hafter⟩
    rw [List.length_cons]
    omega

end Compilation

end TypedLoader
