import TypedLoader.Proofs.Checker.Reported
import TypedLoader.Proofs.Emitting
import TypedLoader.Proofs.Modules

namespace TypedLoader

namespace Compilation

variable {w w' : World} {c c' : Compilation} {p : Path} {text : String}

/-- The file is stored just as the text came in, and it is valid. -/
structure Settled (c : Compilation) (p : Path) (text : String) : Prop where
  stored : ∃ version, c.get? p = some ⟨p.normalize, text, version⟩
  valid : c.isValid p = true

theorem Settled.received_eq (h : c.Settled p text) : c.received p text = c := by
  obtain ⟨version, hget⟩ := h.stored
  have hget : c.files.get? p = some ⟨p.normalize, text, version⟩ := hget
  have hupdate : c.files.update p text true = (false, c.files) := by
    rw [FileStore.update, hget]
    simp only [if_true]
    rw [FileStore.revise, hget]
    simp
  rw [received, update, hupdate]
  rfl

theorem Settled.run_sync (h : c.Settled p text) (w : World) :
    (sync w p text).run c = ⟨.ok (), c, []⟩ := by
  have hv : Analysis.isValid (c.walk p).marks ((c.walk p).files.key p.normalize) = true := by
    rw [FileStore.key, PathCase.key_normalize]
    exact h.valid
  rw [Compilation.run_sync, h.received_eq, Action.run_bind, run_check,
    Analysis.Walk.run_skipped w _ rfl hv]
  rfl

theorem Tidy.settled_sync (h : c.Tidy) (hok : ((sync w p text).run c).result = .ok ()) :
    ((sync w p text).run c).state.Settled p text := by
  have hsynced := synced_sync hok
  obtain ⟨analysed, hcheck⟩ := hsynced.analysed
  obtain ⟨hroot, -⟩ := (h.received p text).check_ok hcheck
  refine ⟨h.get?_sync w p text, ?_⟩
  rw [isValid, hsynced.marks, ← Analysis.key_eq_files_key (hsynced.tidy h).case, hsynced.deps]
  exact hroot

theorem emitOrTranspile_of_compiler (h : w'.compiler = w.compiler) (p : Path)
    (transpileOnly : Bool) :
    emitOrTranspile w' p transpileOnly = emitOrTranspile w p transpileOnly := by
  simp only [emitOrTranspile, emit, emitOutput, program, transpile, h]

/-- Emitting a file will come to the result: by the program that is kept, unless it would be built
as it is once more, or because the compiler refuses to build one. -/
inductive Offers (w : World) (p : Path) (c : Compilation) : Except CompileError EmitOutput → Prop
  | kept {latest : Program} (hc : c.current? = some latest)
      (hb : latest.contains p.normalize = false → w.compiler.build c.host = .ok latest) :
      Offers w p c (output latest p.normalize)
  | refused {reason : String} (hc : c.current? = none)
      (hb : w.compiler.build c.host = .error reason) : Offers w p c (.error (.compiler reason))

theorem Offers.result_eq {r : Except CompileError EmitOutput} (h : Offers w p c r) :
    ((emitOutput w p).run c).result = r := by
  cases h with
  | refused hc hb =>
    have hrun := run_program_of_refused hc hb
    rcases run_emitOutput w p c with ⟨e, hfirst, hemit⟩ | ⟨latest, hfirst, -⟩
    · rw [hrun] at hfirst
      obtain rfl := Except.error.inj hfirst
      exact congrArg Outcome.result hemit
    · rw [hrun] at hfirst
      cases hfirst
  | @kept latest hc hb =>
    have hrun := run_program_of_current hc w
    rcases run_emitOutput w p c with
      ⟨e, hfirst, -⟩ | ⟨first, hfirst, ⟨-, hemit⟩ | ⟨hn, hemit⟩⟩
    · rw [hrun] at hfirst
      cases hfirst
    · rw [hrun] at hfirst
      obtain rfl := Except.ok.inj hfirst
      exact congrArg Outcome.result hemit
    · rw [hrun] at hfirst hemit
      obtain rfl := Except.ok.inj hfirst
      rw [hemit]
      -- the program is built for the same files once more
      have hhost : c.dropProgram.host = c.host := rfl
      rcases run_program_cases w c.dropProgram with
        ⟨_, hcur, -⟩ | ⟨-, reason, hbuild, -⟩ | ⟨-, again, hbuild, hagain⟩
      · cases hcur
      · rw [hhost, hb hn] at hbuild
        cases hbuild
      · rw [hhost, hb hn] at hbuild
        obtain rfl := Except.ok.inj hbuild
        rw [hagain]
        rfl

theorem offers_emitOutput (w : World) (p : Path) (c : Compilation) :
    Offers w p ((emitOutput w p).run c).state ((emitOutput w p).run c).result := by
  rcases run_emitOutput w p c with
    ⟨e, hfirst, hemit⟩ | ⟨first, hfirst, ⟨hm, hemit⟩ | ⟨-, hemit⟩⟩
  · rw [hemit]
    rcases program_cases w c with ⟨latest, hok, -⟩ | ⟨reason, herr, hc, hb⟩
    · rw [hfirst] at hok
      cases hok
    · obtain rfl := Except.error.inj (hfirst.symm.trans herr)
      exact .refused hc hb
  · rw [hemit]
    rcases program_cases w c with ⟨latest, hok, hc⟩ | ⟨reason, herr, -⟩
    · obtain rfl := Except.ok.inj (hfirst.symm.trans hok)
      exact .kept hc fun hn ↦ by rw [hm] at hn; cases hn
    · rw [hfirst] at herr
      cases herr
  · rw [hemit]
    rcases run_program_cases w ((program w).run c).state.dropProgram with
      ⟨_, hcur, -⟩ | ⟨hc, reason, hb, hrun⟩ | ⟨-, latest, hb, hrun⟩
    · cases hcur
    · rw [hrun]
      exact .refused hc hb
    · rw [hrun]
      exact .kept (current?_eq_some.2 ⟨_, rfl, rfl, rfl⟩) fun _ ↦ hb

theorem emit_again (w : World) (p : Path) (c : Compilation) :
    ((emit w p).run ((emit w p).run c).state).result = ((emit w p).run c).result := by
  rw [run_emit w p c, run_emit w p]
  simp only
  rw [(offers_emitOutput w p c).result_eq]

theorem emitOrTranspile_again (w : World) (p : Path) (transpileOnly : Bool) (c : Compilation) :
    ((emitOrTranspile w p transpileOnly).run
        ((emitOrTranspile w p transpileOnly).run c).state).result =
      ((emitOrTranspile w p transpileOnly).run c).result := by
  cases transpileOnly with
  | true =>
    rw [emitOrTranspile, if_pos rfl, (idle_transpile w p).1]
  | false =>
    have hstate : ((emitOrTranspile w p false).run c).state = ((emit w p).run c).state :=
      (Idle.bind (a := ((emit w p).attempt : Act _)) (idle_recovered w p) c).1
    have hsame := dropProgram_emit w p c
    have hagain := emit_again w p c
    rw [hstate]
    by_cases h : ∃ e, ((emit w p).run c).result = .error e ∧ e.isMissingOutput = true
    · obtain ⟨e, he, hm⟩ := h
      rw [run_emitOrTranspile_of_missing he hm,
        run_emitOrTranspile_of_missing (hagain.trans he) hm, run_transpile hsame w p,
        standIn_congr hsame]
    · have hstands (e : CompileError) (he : ((emit w p).run c).result = .error e) :
          e.isMissingOutput = false := by
        by_contra hm
        exact h ⟨e, he, (Bool.not_eq_false _).mp hm⟩
      rw [run_emitOrTranspile_of_not_missing hstands, run_emitOrTranspile_of_not_missing
        fun e he ↦ hstands e (hagain.symm.trans he), hagain]

theorem Tidy.register_again (h : c.Tidy) {deps : FileDeps}
    (hok : ((register w p text).run c).result = .ok deps) (w' : World) :
    let c' := ((register w p text).run c).state
    (register w' p text).run c' = ⟨.ok deps, c', []⟩ := by
  intro c'
  obtain ⟨hresult, hstate⟩ := run_register w p text c
  rw [hresult] at hok
  obtain ⟨⟨⟩, hsync, hdeps⟩ := map_eq_ok hok
  have hc' : c' = ((sync w p text).run c).state := hstate
  rw [← hc'] at hdeps
  have hsettled : c'.Settled p text := hc' ▸ h.settled_sync hsync
  rw [register, Action.run_bind_of_still (hsettled.run_sync w'), ← hdeps]
  rfl

theorem Tidy.compile_again (h : c.Tidy) (hok : ((sync w p text).run c).result = .ok ())
    (hw : w'.compiler = w.compiler) (transpileOnly : Bool) :
    ((compile w' p text transpileOnly).run ((compile w p text transpileOnly).run c).state).result =
      ((compile w p text transpileOnly).run c).result := by
  generalize hc₁ : ((sync w p text).run c).state = c₁
  generalize hc₂ : ((emitOrTranspile w p transpileOnly).run c₁).state = c₂
  have hstate : ((compile w p text transpileOnly).run c).state = c₂ := by
    rw [compile, Action.run_bind_of_ok hok, hc₁, ← hc₂]
    exact (Idle.bind (fun _ ↦ idle_get.seq fun _ ↦ idle_pure _) c₁).1
  have hsame : c₂.dropProgram = c₁.dropProgram :=
    hc₂ ▸ dropProgram_emitOrTranspile w p transpileOnly c₁
  have hsettled : c₁.Settled p text := hc₁ ▸ h.settled_sync hok
  have hsettled : c₂.Settled p text := by
    obtain ⟨-, hfiles, -, hmarks, -⟩ := Compilation.mk.inj hsame
    refine ⟨?_, ?_⟩
    · rw [get?, hfiles]
      exact hsettled.stored
    · rw [isValid, hfiles, hmarks]
      exact hsettled.valid
  have hagain := emitOrTranspile_again w p transpileOnly c₁
  rw [hc₂] at hagain
  rw [hstate, (run_compile w' p text transpileOnly c₂).1, (run_compile w p text transpileOnly c).1,
    hsettled.run_sync w', hok, hc₁, emitOrTranspile_of_compiler hw, hagain,
    (Compilation.mk.inj hsame).2.2.1]

end Compilation

namespace Session

open Compilation (sync)

section Second

variable {s : Session} {w w' : World} {file : Path} {text : String}

theorem register_again (h : s.Tidy) {payload : Json}
    (hok : ((handle w (.registerFile file text)).run s).result = .ok payload) (w' : World) :
    let s' := ((handle w (.registerFile file text)).run s).state
    (handle w' (.registerFile file text)).run s' = ⟨.ok payload, s', []⟩ := by
  intro s'
  obtain ⟨t, ht, hinner, hstate⟩ := onCompilation_ok hok
  obtain ⟨deps, hregister, hreply, hstate'⟩ := Action.run_bind_ok hinner
  obtain ⟨hregister, hsame⟩ := Action.run_mapError_ok hregister
  obtain rfl : deps.toJson = payload := Except.ok.inj hreply
  have hagain := (h t ht).register_again hregister w'
  generalize ((Compilation.register w file text).run t.compilation).state = c at hagain hsame
  have hs' : s' = ⟨some { t with compilation := c }⟩ :=
    hstate.trans (by rw [hstate', Action.run_pure, hsame])
  have hstill : ((Compilation.register w' file text).mapError CheckError.compile).run c =
      ⟨.ok deps, c, []⟩ := by
    rw [Action.run_mapError, hagain]
    rfl
  rw [hs', handle, run_onCompilation, Action.run_bind_of_still hstill]
  rfl

theorem emit_again (h : s.Tidy)
    (hsync : ∀ t, s.started = some t → ((sync w file text).run t.compilation).result = .ok ())
    (hw : w'.compiler = w.compiler) :
    ((handle w' (.emitFile file text)).run ((handle w (.emitFile file text)).run s).state).result =
      ((handle w (.emitFile file text)).run s).result := by
  have hhandle (w : World) : handle w (.emitFile file text) = onCompilation fun t ↦
      (Compilation.compile w file text t.settings.transpileOnly).mapError CheckError.compile >>=
        fun m ↦ pure (EmitReply.ofCompiled file m.output m.deps).toJson := rfl
  cases hs : s.started with
  | none =>
    obtain rfl : s = ⟨none⟩ := congrArg Session.mk hs
    rw [hhandle w, run_onCompilation_none, hhandle w', run_onCompilation_none]
  | some t =>
    obtain ⟨hresult, hstarted⟩ := run_handle_of _ _ hs (hhandle w)
    obtain ⟨hresult', -⟩ := run_handle_of _ _ hstarted (hhandle w')
    rw [hresult, hresult', Action.run_mapError, Action.run_mapError]
    simp only
    rw [(h t hs).compile_again (hsync t hs) hw]

end Second

/-- An analysis that has succeeded for a text succeeds again without a call, and changes nothing.
So a request for a file that comes a second time is answered as it was the first time, when the
text could be analysed then. -/
theorem second_as_first :
    (∀ options case (ops : List Compilation.Operation) w p text,
      let o := (sync w p text).run ((Compilation.make options case).perform ops).1
      o.result = .ok () → ∀ w', (sync w' p text).run o.state = ⟨.ok (), o.state, []⟩) ∧
    ∀ (history : List (World × Request)) w file text,
      let s := ({} : Session).through history
      (∀ payload, ((handle w (.registerFile file text)).run s).result = .ok payload →
        let s' := ((handle w (.registerFile file text)).run s).state
        ∀ w', (handle w' (.registerFile file text)).run s' = ⟨.ok payload, s', []⟩) ∧
      ((∀ t, s.started = some t → ((sync w file text).run t.compilation).result = .ok ()) →
        let o := (handle w (.emitFile file text)).run s
        ∀ w', w'.compiler = w.compiler →
          ((handle w' (.emitFile file text)).run o.state).result = o.result) := by
  refine ⟨?_, fun history w file text ↦ ?_⟩
  · intro options case ops w p text o hok w'
    exact (((Compilation.tidy_make options case).perform ops).settled_sync hok).run_sync w'
  · have htidy := tidy_empty.through history
    exact ⟨fun payload hok w' ↦ register_again htidy hok w',
      fun hsync w' hw ↦ emit_again htidy hsync hw⟩

/-- Two files that import each other are analysed once. -/
theorem second_as_first_of_cycle :
    let w := World.importing ⟨[(⟨"/a.ts"⟩, "/b.d.ts"), (⟨"/b.d.ts"⟩, "/a.ts")]⟩
    let setup : Setup :=
      { compiler := ⟨"importing", "1"⟩, settings := { case := some .sensitive }, options := [] }
    let o := (sync w ⟨"/a.ts"⟩ "/b.d.ts").run (Compilation.make [] .sensitive)
    let s := ({} : Session).through [(w, .init setup)]
    let registered := (handle w (.registerFile ⟨"/a.ts"⟩ "/b.d.ts")).run s
    let emitted := (handle w (.emitFile ⟨"/a.ts"⟩ "/b.d.ts")).run s
    (sync w ⟨"/a.ts"⟩ "/b.d.ts").run o.state = ⟨.ok (), o.state, []⟩ ∧
      (∃ payload, registered.result = .ok payload ∧
        (handle w (.registerFile ⟨"/a.ts"⟩ "/b.d.ts")).run registered.state =
          ⟨.ok payload, registered.state, []⟩) ∧
      ((handle w (.emitFile ⟨"/a.ts"⟩ "/b.d.ts")).run emitted.state).result = emitted.result := by
  intro w setup o s registered emitted
  have hsupplied : World.Supplied ⟨[(⟨"/a.ts"⟩, "/b.d.ts"), (⟨"/b.d.ts"⟩, "/a.ts")]⟩
      ((Compilation.make [] .sensitive).received ⟨"/a.ts"⟩ "/b.d.ts").files :=
    (World.supplied_empty .sensitive (by decide)).put (Or.inr (by decide)) ⟨"/a.ts"⟩ 0
  obtain ⟨analysed, hcheck, -⟩ := Compilation.check_importing (p := ⟨"/a.ts"⟩) hsupplied (by decide)
  have hsync := Compilation.result_sync hcheck
  obtain ⟨t, hs, hc⟩ : ∃ t, s.started = some t ∧ t.compilation = Compilation.make [] .sensitive :=
    ⟨_, rfl, rfl⟩
  obtain ⟨payload, hok⟩ : ∃ payload, registered.result = .ok payload :=
    handle_register hs (hc ▸ hcheck)
  obtain ⟨hcompilation, hsession⟩ := second_as_first
  obtain ⟨hregister, hemit⟩ := hsession [(w, .init setup)] w ⟨"/a.ts"⟩ "/b.d.ts"
  refine ⟨hcompilation [] .sensitive [] w ⟨"/a.ts"⟩ "/b.d.ts" hsync w,
    ⟨payload, hok, hregister payload hok w⟩, hemit (fun t' ht' ↦ ?_) w rfl⟩
  obtain rfl : t = t' := Option.some.inj (hs.symm.trans ht')
  exact hc ▸ hsync

end Session

end TypedLoader
