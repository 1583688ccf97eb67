import TypedLoader.Proofs.Checker.Handling
import TypedLoader.Proofs.Modules

namespace TypedLoader

/-- What is asked for and not told: the reports of the program, or the files. -/
def RequestKind.isRead : RequestKind → Bool
  | diagnostics | files => true
  | _ => false

namespace Compilation

open TypedLoader.Action (Keeps)

variable {w : World} {build : Host → Except String Program} {c c' : Compilation} {p : Path}
  {text : String} {ε δ α β : Type}

theorem Orderly.updateFile (h : c.Orderly build) (p : Path) (text : String) (onlyKnown : Bool) :
    (Session.updateFile p text onlyKnown c).Orderly build := by
  have hreceived := h.change (changes_received c p text) (h.tidy.received p text)
  rw [Session.updateFile_eq]
  split
  · exact h
  · split
    · exact hreceived.dropProgram
    · exact hreceived

theorem Orderly.removeFile (h : c.Orderly build) (p : Path) :
    (Session.removeFile p c).Orderly build := by
  dsimp only [Session.removeFile]
  split
  · exact (h.remove p).dropProgram
  · exact h.remove p

theorem Orderly.reports (h : c.Orderly build) (hw : w.compiler.build = build)
    (f : DiagnosticFilter) (context : Path) :
    ((Compilation.reports w f context).run c).state.Orderly build := by
  obtain ⟨kept, hc⟩ := h.current
  have hop : Operation.BuildsBy build (.reports w f context) := hw
  obtain ⟨hleads, -⟩ := Operation.leads hop c
  exact ⟨keeps_reports w (fun _ _ h ↦ ⟨h.case, h.kept, h.stored⟩) f context c h.tidy,
    _, hc.leads hleads⟩

theorem dropProgram_reports (w : World) (f : DiagnosticFilter) (context : Path)
    (c : Compilation) : ((reports w f context).run c).state.dropProgram = c.dropProgram :=
  keeps_reports w (P := fun c' ↦ c'.dropProgram = c.dropProgram) (fun _ _ h ↦ h) f context c rfl

/-- The result does not depend on the program that is kept, and neither does the state
up to that program. -/
def Blind (build : Host → Except String Program) (a : Action Compilation ε α) : Prop :=
  ∀ c c', Matched build c c' → (a.run c').result = (a.run c).result ∧
    Matched build (a.run c).state (a.run c').state

theorem Matched.twins (h : Matched build c c') : Twins build c c' :=
  ⟨h.same, h.left.fresh, h.right.fresh⟩

theorem blind_of_transparent {a : Action Compilation ε α} (h : Transparent build a)
    (hk : Keeps (Orderly build) a) : Blind build a := by
  intro c c' hm
  obtain ⟨hresult, htwins⟩ := h c c' hm.twins
  exact ⟨hresult, htwins.same, hk c hm.left, hk c' hm.right⟩

theorem blind_pure (x : α) : Blind build (pure x : Action Compilation ε α) :=
  fun _ _ h ↦ ⟨rfl, h⟩

theorem blind_modify {f : Compilation → Compilation}
    (hf : ∀ c, (f c.dropProgram).dropProgram = (f c).dropProgram)
    (ho : ∀ c, c.Orderly build → (f c).Orderly build) :
    Blind build (Action.modify f : Action Compilation ε Unit) := by
  intro c c' h
  refine ⟨rfl, ?_, ho c h.left, ho c' h.right⟩
  rw [Action.run_modify, Action.run_modify, ← hf c', h.same, hf c]

/-- What follows may depend on everything but the program that is kept. -/
theorem blind_get_bind {f : Compilation → Action Compilation ε β}
    (hf : ∀ c, f c.dropProgram = f c) (h : ∀ c, Blind build (f c)) :
    Blind build (Action.get >>= f) := by
  intro c c' hm
  have hsame : f c' = f c := by
    rw [← hf c', hm.same, hf c]
  rw [Action.run_get_bind, Action.run_get_bind, hsame]
  exact h c c c' hm

theorem Blind.bind {a : Action Compilation ε α} {f : α → Action Compilation ε β}
    (ha : Blind build a) (hf : ∀ x, Blind build (f x)) : Blind build (a >>= f) := by
  intro c c' h
  obtain ⟨hresult, h'⟩ := ha c c' h
  cases hr : (a.run c).result with
  | error e =>
    rw [Action.run_bind_of_error hr, Action.run_bind_of_error (hresult.trans hr)]
    exact ⟨rfl, h'⟩
  | ok x =>
    rw [Action.run_bind_of_ok hr, Action.run_bind_of_ok (hresult.trans hr)]
    exact hf x _ _ h'

theorem Blind.mapError {a : Action Compilation ε α} (h : Blind build a) (f : ε → δ) :
    Blind build (a.mapError f) := by
  intro c c' hm
  obtain ⟨hresult, hm'⟩ := h c c' hm
  rw [Action.run_mapError, Action.run_mapError]
  exact ⟨congrArg (Except.mapError f) hresult, hm'⟩

theorem blind_updateFile (p : Path) (text : String) (onlyKnown : Bool) :
    Blind build (Action.modify (Session.updateFile p text onlyKnown) :
      Action Compilation ε Unit) := by
  refine blind_modify (fun c ↦ ?_) fun c h ↦ h.updateFile p text onlyKnown
  have hhas : c.dropProgram.has p = c.has p := rfl
  have hstored : (c.dropProgram.update p text true).1 = (c.update p text true).1 := rfl
  have hreceived : c.dropProgram.received p text = (c.received p text).dropProgram :=
    received_withBuilt c none p text
  rw [Session.updateFile_eq, Session.updateFile_eq, hhas, hstored, hreceived]
  split
  · rfl
  · split <;> rfl

theorem blind_removeFile (p : Path) :
    Blind build (Action.modify (Session.removeFile p) : Action Compilation ε Unit) := by
  refine blind_modify (fun c ↦ ?_) fun c h ↦ h.removeFile p
  have hremove : c.dropProgram.remove p = ((c.remove p).1, (c.remove p).2.dropProgram) := rfl
  rw [Session.removeFile, Session.removeFile, hremove]
  dsimp only
  split <;> rfl

theorem blind_compile (hw : w.compiler.build = build) (p : Path) (text : String)
    (transpileOnly : Bool) : Blind build (compile w p text transpileOnly) := by
  refine .bind (fun c c' h ↦ h.sync w p text) fun _ ↦ .bind
    (blind_of_transparent (transparent_emitOrTranspile hw p transpileOnly)
      (Orderly.emitOrTranspile hw p transpileOnly)) fun output ↦ ?_
  exact blind_get_bind (fun _ ↦ rfl) fun _ ↦ blind_pure _

theorem blind_register (w : World) (p : Path) (text : String) :
    Blind build (register w p text) :=
  .bind (fun _ _ h ↦ h.sync w p text) fun _ ↦ blind_get_bind (fun _ ↦ rfl) fun _ ↦ blind_pure _

theorem blind_reports (hw : w.compiler.build = build) (f : DiagnosticFilter) (context : Path) :
    Blind build (reports w f context) :=
  blind_of_transparent (transparent_reports hw f context) fun _ h ↦ h.reports hw f context

end Compilation

namespace Session

open Compilation (Blind)

variable {w : World} {s s' : Session}

def withoutProgram (s : Session) : Session :=
  ⟨s.started.map fun t ↦ { t with compilation := t.compilation.dropProgram }⟩

inductive Matched (build : Host → Except String Program) : Session → Session → Prop
  | idle : Matched build ⟨none⟩ ⟨none⟩
  | started {c' : Compilation} (t : Started) (h : Compilation.Matched build t.compilation c') :
    Matched build ⟨some t⟩ ⟨some { t with compilation := c' }⟩

section Matched

variable {build : Host → Except String Program}

theorem Matched.withoutProgram_eq (h : Matched build s s') :
    s'.withoutProgram = s.withoutProgram := by
  cases h with
  | idle => rfl
  | started t h =>
    rw [withoutProgram, withoutProgram]
    dsimp only [Option.map_some]
    rw [h.same]

theorem Matched.onCompilation {α : Type} {a : Started → Action Compilation CheckError α}
    (h : Matched build s s') (ha : ∀ t c, a { t with compilation := c } = a t)
    (hblind : ∀ t, Blind build (a t)) :
    ((onCompilation a).run s').result = ((onCompilation a).run s).result ∧
      Matched build ((onCompilation a).run s).state ((onCompilation a).run s').state := by
  cases h with
  | idle => exact ⟨rfl, .idle⟩
  | @started c' t h =>
    have hrun (t : Started) : (Session.onCompilation a).run ⟨some t⟩ =
        ⟨((a t).run t.compilation).result,
          ⟨some { t with compilation := ((a t).run t.compilation).state }⟩,
          ((a t).run t.compilation).calls⟩ := rfl
    obtain ⟨hresult, hstate⟩ := hblind t t.compilation c' h
    rw [hrun, hrun, ha t c']
    exact ⟨hresult, .started { t with compilation := _ } hstate⟩

theorem Matched.handle (h : Matched w.compiler.build s s') (r : Request) :
    ((handle w r).run s').result = ((handle w r).run s).result ∧
      Matched w.compiler.build ((handle w r).run s).state ((handle w r).run s').state := by
  cases r with
  | init setup =>
    rw [Session.handle, init]
    dsimp only
    split
    · exact ⟨rfl, h⟩
    · refine ⟨rfl, .started _ ⟨rfl, ?_, ?_⟩⟩ <;> exact Compilation.orderly_make _ _ _
  | updateFile file text onlyKnown =>
    exact h.onCompilation (fun _ _ ↦ rfl) fun _ ↦
      .bind (Compilation.blind_updateFile file text onlyKnown) fun _ ↦ Compilation.blind_pure _
  | removeFile file =>
    exact h.onCompilation (fun _ _ ↦ rfl) fun _ ↦
      .bind (Compilation.blind_removeFile file) fun _ ↦ Compilation.blind_pure _
  | emitFile file text =>
    exact h.onCompilation (fun _ _ ↦ rfl) fun t ↦
      .bind ((Compilation.blind_compile rfl file text t.settings.transpileOnly).mapError _)
        fun _ ↦ Compilation.blind_pure _
  | registerFile file text =>
    exact h.onCompilation (fun _ _ ↦ rfl) fun _ ↦
      .bind ((Compilation.blind_register w file text).mapError _) fun _ ↦ Compilation.blind_pure _
  | diagnostics =>
    exact h.onCompilation (fun _ _ ↦ rfl) fun t ↦
      .bind (Compilation.blind_reports rfl t.filter t.settings.context) fun _ ↦
        Compilation.blind_pure _
  | files =>
    rw [Session.handle]
    refine h.onCompilation (fun _ _ ↦ rfl) fun _ ↦ ?_
    exact Compilation.blind_get_bind (fun _ ↦ rfl) fun _ ↦ Compilation.blind_pure _

/-- Both sessions answer alike. -/
theorem Matched.answer (h : Matched w.compiler.build s s') (e : RequestEnvelope) :
    (answer w e s').1 = (answer w e s).1 ∧
      Matched w.compiler.build (answer w e s).2.1 (answer w e s').2.1 := by
  rw [Session.answer, Session.answer]
  cases e.request? with
  | none => exact ⟨rfl, h⟩
  | some r =>
    obtain ⟨hresult, hstate⟩ := h.handle r
    exact ⟨congrArg (Response.ofResult e.seq) hresult, hstate⟩

theorem state_files (w : World) (s : Session) : ((handle w .files).run s).state = s := by
  obtain ⟨_ | t⟩ := s <;> rfl

theorem state_diagnostics (w : World) (s : Session) : ((handle w .diagnostics).run s).state =
    ⟨s.started.map fun t ↦ { t with compilation :=
      ((Compilation.reports w t.filter t.settings.context).run t.compilation).state }⟩ := by
  cases hs : s.started with
  | none =>
    obtain ⟨_ | t⟩ := s
    · rfl
    · cases hs
  | some t =>
    have hstarted := (run_handle_of (s := s) (w := w) (r := .diagnostics)
      (fun t ↦ Compilation.reports w t.filter t.settings.context)
      (fun reports ↦ .arr (reports.map Report.toJson)) hs rfl).2
    exact congrArg Session.mk hstarted

theorem withoutProgram_diagnostics (w : World) (s : Session) :
    ((handle w .diagnostics).run s).state.withoutProgram = s.withoutProgram := by
  rw [state_diagnostics, withoutProgram, withoutProgram, Option.map_map]
  refine congrArg Session.mk (congrArg (fun f ↦ Option.map f s.started) (funext fun t ↦ ?_))
  have hdrop := Compilation.dropProgram_reports w t.filter t.settings.context t.compilation
  exact congrArg (fun compilation ↦ { t with compilation }) hdrop

theorem Matched.read (h : Matched w.compiler.build s s') {e : RequestEnvelope}
    (he : e.kind.isRead = true) : Matched w.compiler.build (Session.answer w e s).2.1 s' := by
  obtain ⟨seq, kind, payload⟩ := e
  cases kind with
  | diagnostics =>
    have hstate : (Session.answer w ⟨seq, .diagnostics, payload⟩ s).2.1 =
        ((Session.handle w .diagnostics).run s).state := rfl
    rw [hstate, state_diagnostics]
    cases h with
    | idle => exact .idle
    | started t h =>
      refine .started _ ⟨?_, h.left.reports rfl _ _, h.right⟩
      exact h.same.trans (Compilation.dropProgram_reports w _ _ _).symm
  | files =>
    have hstate : (Session.answer w ⟨seq, .files, payload⟩ s).2.1 =
        ((Session.handle w .files).run s).state := rfl
    rw [hstate, state_files]
    exact h
  | _ => cases he

theorem withoutProgram_read (w : World) (s : Session) {e : RequestEnvelope}
    (he : e.kind.isRead = true) :
    (Session.answer w e s).2.1.withoutProgram = s.withoutProgram := by
  obtain ⟨seq, kind, payload⟩ := e
  cases kind with
  | diagnostics => exact withoutProgram_diagnostics w s
  | files => exact congrArg withoutProgram (state_files w s)
  | _ => cases he

end Matched

def serve (w : World) : Session → List RequestEnvelope → List Response × Session
  | s, [] => ([], s)
  | s, e :: rest =>
    let (response, next, _) := answer w e s
    let (responses, last) := serve w next rest
    (response :: responses, last)

/-- A request, and whether it is to be left out, which only a read can be. -/
abbrev Marked := RequestEnvelope × Bool

def Marked.stays (m : Marked) : Bool := !(m.2 && m.1.kind.isRead)

theorem serve_cons (w : World) (s : Session) (e : RequestEnvelope) (rest : List RequestEnvelope) :
    serve w s (e :: rest) = ((answer w e s).1 :: (serve w (answer w e s).2.1 rest).1,
      (serve w (answer w e s).2.1 rest).2) := rfl

theorem Matched.refl_serve (w : World) (history : List RequestEnvelope)
    (h : Matched w.compiler.build s s) :
    Matched w.compiler.build (serve w s history).2 (serve w s history).2 := by
  induction history generalizing s with
  | nil => exact h
  | cons e rest ih => exact ih (h.answer e).2

theorem Matched.serve (h : Matched w.compiler.build s s') (stream : List Marked) :
    let whole := Session.serve w s (stream.map Prod.fst)
    let rest := Session.serve w s' ((stream.filter Marked.stays).map Prod.fst)
    rest.1 = ((whole.1.zip stream).filter fun p ↦ p.2.stays).map Prod.fst ∧
      Matched w.compiler.build whole.2 rest.2 := by
  induction stream generalizing s s' with
  | nil => exact ⟨rfl, h⟩
  | cons m stream ih =>
    obtain ⟨e, out⟩ := m
    cases hstays : Marked.stays (e, out) with
    | true =>
      obtain ⟨hresponse, hnext⟩ := h.answer e
      obtain ⟨hresponses, hlast⟩ := ih hnext
      rw [List.map_cons, List.filter_cons_of_pos hstays, List.map_cons]
      dsimp only
      rw [serve_cons, serve_cons, List.zip_cons_cons,
        List.filter_cons_of_pos (p := fun p : Response × Marked ↦ p.2.stays) hstays, List.map_cons]
      dsimp only
      rw [hresponses, hresponse]
      exact ⟨rfl, hlast⟩
    | false =>
      have hread : e.kind.isRead = true := by
        cases hr : e.kind.isRead with
        | true => rfl
        | false => simp [Marked.stays, hr] at hstays
      have hout : ¬Marked.stays (e, out) = true := by simp [hstays]
      rw [List.map_cons, List.filter_cons_of_neg hout]
      dsimp only
      rw [serve_cons, List.zip_cons_cons,
        List.filter_cons_of_neg (p := fun p : Response × Marked ↦ p.2.stays) hout]
      exact ih (h.read hread)

/-- Reads do not disturb a session. After any requests, the responses to a stream without
some of its reads are those of the whole stream to the same requests, and the sessions
differ at most in the program that is kept. A single read of any session, whether it
succeeds or fails, leaves everything else as it was, and one of the files leaves all. -/
theorem reads_leave_session (w : World) (history : List RequestEnvelope)
    (stream : List Marked) :
    let s := (serve w {} history).2
    let whole := serve w s (stream.map Prod.fst)
    let rest := serve w s ((stream.filter Marked.stays).map Prod.fst)
    rest.1 = ((whole.1.zip stream).filter fun p ↦ p.2.stays).map Prod.fst ∧
      rest.2.withoutProgram = whole.2.withoutProgram ∧
      ∀ s : Session, (∀ e : RequestEnvelope, e.kind.isRead = true →
          (answer w e s).2.1.withoutProgram = s.withoutProgram) ∧
        ((handle w .files).run s).state = s := by
  intro s whole rest
  obtain ⟨hresponses, hlast⟩ := (Matched.refl_serve w history .idle).serve stream
  exact ⟨hresponses, hlast.withoutProgram_eq,
    fun s ↦ ⟨fun e he ↦ withoutProgram_read w s he, state_files w s⟩⟩

end Session

end TypedLoader
