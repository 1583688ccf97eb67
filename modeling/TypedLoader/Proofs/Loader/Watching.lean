import TypedLoader.Proofs.Checker.Reading
import TypedLoader.Proofs.Loader.Forked
import TypedLoader.Proofs.Loader.Holding
import TypedLoader.Proofs.Passes

namespace TypedLoader

namespace Compilation

variable {w : World} {build : Host → Except String Program} {c d : Compilation} {p : Path}
  {changed : List Path}

theorem Orderly.refresh (h : c.Orderly build) (w : World) (p : Path) :
    ((Compilation.refresh w p).run c).state.Orderly build := by
  have hinvalid : (c.invalidate p).Orderly build :=
    h.change ⟨.refl _, rfl, rfl⟩ (h.tidy.invalidate p)
  rw [(run_refresh w p c).2]
  split
  · split
    · exact hinvalid.remove p
    · rename_i text hread
      have hupdated := hinvalid.change (changes_update _ p text true)
        (hinvalid.tidy.update p text true)
      split
      · exact hupdated.change (changes_check w p _) (hupdated.tidy.check w p)
      · exact hupdated
  · exact hinvalid

theorem Orderly.mirror (h : c.Orderly build) (w : World) (p : Path) :
    (c.mirror w p).Orderly build := by
  rw [Compilation.mirror]
  split
  · exact h.updateFile p _ true
  · exact h.removeFile p

theorem Orderly.foldl {step : Compilation → Path → Compilation} (h : c.Orderly build)
    (hstep : ∀ c p, c.Orderly build → (step c p).Orderly build) :
    (changed.foldl step c).Orderly build := by
  induction changed generalizing c with
  | nil => exact h
  | cons p rest ih => exact ih (hstep c p h)

/-- Changed files have been taken over in place, or as a checker does it. -/
inductive TookOver (w : World) (changed : List Path) (c c' : Compilation) : Bool → Prop
  | refreshed (h : c'.dropProgram =
      (changed.foldl (fun c p ↦ ((refresh w p.normalize).run c).state) c).dropProgram) :
    TookOver w changed c c' false
  | mirrored (h : c'.dropProgram = (changed.foldl (mirror w) c).dropProgram) :
    TookOver w changed c c' true

theorem tookOver_nil (w : World) (c : Compilation) (forked : Bool) : TookOver w [] c c forked := by
  cases forked with
  | false => exact .refreshed rfl
  | true => exact .mirrored rfl

theorem run_refreshAll (w : World) (changed : List Path) (c : Compilation) :
    (∃ any, ((refreshAll w changed).run c).result = .ok any) ∧
      ((refreshAll w changed).run c).state =
        changed.foldl (fun c p ↦ ((refresh w p).run c).state) c := by
  induction changed generalizing c with
  | nil => exact ⟨⟨false, rfl⟩, rfl⟩
  | cons p rest ih =>
    obtain ⟨⟨first, hfirst⟩, -⟩ := run_refresh w p c
    obtain ⟨⟨others, hothers⟩, hstate⟩ := ih ((refresh w p).run c).state
    rw [refreshAll, Action.run_bind_of_ok hfirst, Action.run_bind_of_ok hothers]
    exact ⟨⟨_, rfl⟩, hstate⟩

theorem Fresh.result_reports (h : c.Fresh build) (hw : w.compiler.build = build)
    (f : DiagnosticFilter) (context : Path) : ((reports w f context).run c).result =
      (((build c.host).mapError CompileError.compiler).mapError CheckError.compile).bind fun p ↦
        match (p.diagnostics f).mapM fun d ↦
          Report.ofDiagnostic? d (c.host.snapshot ⟨d.file⟩) context w.coloured with
        | some reports => .ok reports
        | none => .error .messageTooDeep := by
  have hresult : (((Compilation.program w).mapError CheckError.compile).run c).result =
      (((build c.host).mapError CompileError.compiler).mapError CheckError.compile) := by
    rw [Action.run_mapError, h.result_program hw]
  generalize hasked : ((Compilation.program w).mapError CheckError.compile).run c = asked
    at hresult
  have hhost : asked.state.host = c.host := by
    have hsame : ((Compilation.program w).run c).state.dropProgram.host = c.dropProgram.host :=
      congrArg host (dropProgram_program w c)
    rw [← hasked, Action.run_mapError]
    exact hsame
  let report (d : Diagnostic) :=
    Report.ofDiagnostic? d (c.host.snapshot ⟨d.file⟩) context w.coloured
  have hreport : report? asked.state w.coloured context = report := by
    simp only [report, ← hhost]
    rfl
  rw [reports]
  cases hb : build c.host with
  | error reason =>
    rw [hb, ← hasked] at hresult
    rw [Action.run_bind_of_error hresult]
    rfl
  | ok latest =>
    rw [hb, ← hasked] at hresult
    rw [Action.run_bind_of_ok hresult, Action.run_get_bind, hasked, hreport]
    simp only [Except.mapError, Except.bind]
    generalize (latest.diagnostics f).mapM report = found
    cases found <;> rfl

theorem Knows.host_eq {s : Analysis.Scene} {stale : List Path} (hc : c.Knows s c.files stale)
    (hd : d.Knows s c.files stale) : d.host = c.host := by
  obtain ⟨hfiles, hversion⟩ := hd.files_eq
  have hcase : d.files.case = c.files.case :=
    hd.tracks.stores.case.trans hc.tracks.stores.case.symm
  have hoptions : d.options = c.options := hd.options.trans hc.options.symm
  have hget (p : Path) : d.files.get? p = c.files.get? p := by
    rw [FileStore.get?, FileStore.get?, FileStore.key, FileStore.key, hcase, hfiles]
  have hpaths : d.files.paths = c.files.paths := by
    rw [FileStore.paths, FileStore.paths, FileStore.all, FileStore.all, hfiles]
  rw [host, host]
  simp only [hget, hpaths, hversion, hoptions]

end Compilation

def Request.told (w : World) (p : Path) : Request :=
  match w.files.read p with
  | .ok text => .updateFile p text true
  | .error _ => .removeFile p

namespace Session

/-- The wire carries requests to a session one after the other, and the responses. -/
def CarriesAll (w : World) : Session → Nat → List Request → Prop
  | _, _, [] => True
  | s, n, r :: rest => Carries w s n r ∧ CarriesAll w ((handle w r).run s).state (n + 1) rest

theorem carries_of_ok {w : World} {s : Session} {n : Nat} {r : Request} {payload : Json}
    (hn : n < UInt64.size) (hcodes : r.CodesFit) (hr : r.payload.Portable (Json.maxDepth - 1))
    (hok : ((handle w r).run s).result = .ok payload)
    (hpayload : payload.Portable (Json.maxDepth - 1))
    (hsent : (r.envelope n).toJson.text.utf8ByteSize ≤ Frame.maxBytes)
    (hanswered : (Response.ok n payload).toJson.text.utf8ByteSize ≤ Frame.maxBytes) :
    Carries w s n r where
  number := hn
  codes := hcodes
  request := ⟨Request.portable_envelope hn hr, hsent⟩
  response := by
    rw [hok]
    refine ⟨Response.portable_ofResult hn fun payload' he ↦ ?_, hanswered⟩
    obtain rfl := Except.ok.inj he
    exact hpayload

theorem carries_request {w : World} {s : Session} {n : Nat} {r : Request} {payload : Json}
    (hr : ∀ setup, r ≠ .init setup) (hn : n < UInt64.size)
    (hok : ((handle w r).run s).result = .ok payload)
    (hpayload : payload.Portable (Json.maxDepth - 1))
    (hsent : (r.envelope n).toJson.text.utf8ByteSize ≤ Frame.maxBytes)
    (hanswered : (Response.ok n payload).toJson.text.utf8ByteSize ≤ Frame.maxBytes) :
    Carries w s n r := by
  have hcodes : r.CodesFit := by
    cases r with
    | init setup => exact absurd rfl (hr setup)
    | _ => trivial
  have hrequest : r.payload.Portable (Json.maxDepth - 1) :=
    Request.portable_payload 125 fun setup h ↦ absurd h (hr setup)
  exact carries_of_ok hn hcodes hrequest hok hpayload hsent hanswered

theorem run_handle_told (w : World) (p : Path) (t : Started) :
    ((handle w (.told w p)).run ⟨some t⟩).result = .ok .null ∧
      ((handle w (.told w p)).run ⟨some t⟩).state =
        ⟨some { t with compilation := t.compilation.mirror w p }⟩ := by
  rw [Request.told, Compilation.mirror]
  cases w.files.read p <;> exact ⟨rfl, rfl⟩

end Session

namespace Instance

variable {s : Surroundings} {home : WorkerHome} {t : Session.Started} {n : Nat} {i : Instance}
  {client : Client} {changed : List Path}

theorem run_forward (s : Surroundings) (p : Path) (client : Client) :
    (∃ promise, ((forward s p).run client).result = .ok promise) ∧
      ((forward s p).run client).state = client.asked s.workers (.told s.world p) := by
  rw [forward, Action.run_bind, Action.run_call, Request.told]
  dsimp only
  cases s.world.files.read p <;> exact ⟨⟨_, rfl⟩, rfl⟩

theorem run_forwardAll_cons (s : Surroundings) (p : Path) (rest : List Path) (client : Client) :
    let o := (forwardAll s rest).run (client.asked s.workers (.told s.world p))
    ∃ calls, (forwardAll s (p :: rest)).run client = ⟨o.result, o.state, calls⟩ := by
  obtain ⟨⟨promise, hok⟩, hstate⟩ := run_forward s p client
  have hrun : (forwardAll s (p :: rest)).run client =
      ((forward s p >>= fun _ ↦ (pure () : Client.Act Unit)) >>= fun _ ↦
        forwardAll s rest).run client := rfl
  have hfirst : (forward s p >>= fun _ ↦ (pure () : Client.Act Unit)).run client =
      ⟨.ok (), client.asked s.workers (.told s.world p),
        ((forward s p).run client).calls ++ []⟩ := by
    rw [Action.run_bind_of_ok hok, hstate]
    rfl
  rw [hrun, Action.run_bind, hfirst]
  exact ⟨_, rfl⟩

theorem result_forwardAll (s : Surroundings) (changed : List Path) (client : Client) :
    ((forwardAll s changed).run client).result = .ok () := by
  induction changed generalizing client with
  | nil => rfl
  | cons p rest ih =>
    obtain ⟨calls, hrun⟩ := run_forwardAll_cons s p rest client
    rw [hrun]
    exact ih _

theorem run_forwardAll (hworld : s.workers home = s.world) (h : client.Rests home ⟨some t⟩)
    (hr : Session.CarriesAll s.world ⟨some t⟩ client.nextSeq (changed.map (.told s.world))) :
    let o := (forwardAll s changed).run client
    o.state.Rests home ⟨some { t with
      compilation := changed.foldl (Compilation.mirror s.world) t.compilation }⟩ ∧
      o.state.nextSeq = client.nextSeq + changed.length := by
  induction changed generalizing client t with
  | nil => exact ⟨h, rfl⟩
  | cons p rest ih =>
    obtain ⟨hp, hrest⟩ := hr
    have hcarries : Session.Carries (s.workers home) ⟨some t⟩ client.nextSeq
        (.told s.world p) := by
      rw [hworld]
      exact hp
    obtain ⟨hnext, hseq, -⟩ := h.asked hcarries
    rw [hworld, (Session.run_handle_told s.world p t).2] at hnext
    rw [(Session.run_handle_told s.world p t).2, ← hseq] at hrest
    obtain ⟨hrests, hcount⟩ := ih hnext hrest
    obtain ⟨calls, hrun⟩ := run_forwardAll_cons s p rest client
    rw [hrun]
    refine ⟨hrests, ?_⟩
    rw [List.length_cons]
    dsimp only
    omega

theorem run_onCompilation {ε α : Type} (a : Action Compilation ε α) (i : Instance) :
    (onCompilation a).run i = ⟨(a.run i.compilation).result,
      { i with compilation := (a.run i.compilation).state }, (a.run i.compilation).calls⟩ := rfl

theorem run_refresh (s : Surroundings) (changed : List Path) (c : Compilation) :
    ((refresh s changed).run c).result = .ok () ∧
      let d := changed.foldl (fun c p ↦
        ((Compilation.refresh s.world p.normalize).run c).state) c
      (((refresh s changed).run c).state = d ∨
        ((refresh s changed).run c).state = d.dropProgram) := by
  obtain ⟨⟨any, hany⟩, hstate⟩ := Compilation.run_refreshAll s.world (changed.map Path.normalize) c
  rw [List.foldl_map] at hstate
  rw [refresh, Action.run_bind_of_ok hany, hstate]
  cases any with
  | true => exact ⟨rfl, Or.inr rfl⟩
  | false => exact ⟨rfl, Or.inl rfl⟩

theorem run_filesChanged {j : Instance} {calls : List Call}
    (h : (perform (forwardAll s changed) (pure ())).run
      { i with compilation := ((refresh s changed).run i.compilation).state } =
        ⟨.ok (), j, calls⟩) :
    ((filesChanged s changed).run i).result = .ok () ∧
      ((filesChanged s changed).run i).state =
        { j with debouncer := j.debouncer.notify s.now } := by
  have hrefresh : ((onCompilation ((refresh s changed).mapError LoadError.compile)).run i).result =
      .ok () := by
    rw [run_onCompilation, Action.run_mapError, (run_refresh s changed i.compilation).1]
    rfl
  rw [filesChanged, Action.run_bind_of_ok hrefresh, run_onCompilation, Action.run_mapError]
  dsimp only [Outcome.after]
  rw [Action.run_bind, h]
  exact ⟨rfl, rfl⟩

/-- The wire carries requests to the checker one after the other, if there is one. -/
def CarriesAll (home : WorkerHome) (w : World) (requests : List Request) (i : Instance) : Prop :=
  ∀ t n, i.Serves home t n → Session.CarriesAll w ⟨some t⟩ n requests

/-- The session of an instance takes changed files over, in place or in its checker. -/
theorem Presents.filesChanged (h : i.Presents home t n) (hworld : s.workers home = s.world)
    (hr : i.CarriesAll home s.world (changed.map (.told s.world))) :
    let o := (Instance.filesChanged s changed).run i
    o.result = .ok () ∧ i.SameSetup o.state ∧ ∃ c,
      o.state.Presents home { t with compilation := c } (n + changed.length) ∧
      Compilation.TookOver s.world changed t.compilation c i.isForked ∧
      ∀ build, t.compilation.Orderly build → c.Orderly build := by
  intro o
  cases h with
  | here alone own filter context mode =>
    have hperform : (perform (forwardAll s changed) (pure ())).run
        { i with compilation := ((refresh s changed).run i.compilation).state } = _ :=
      run_perform_here alone
    obtain ⟨hresult, hstate⟩ := run_filesChanged hperform
    rw [own] at hstate
    have hrefresh := (run_refresh s changed t.compilation).2
    refine ⟨hresult, ?_⟩
    rw [hstate]
    have hmode : i.isForked = false := by rw [isForked, alone]; rfl
    refine ⟨⟨rfl, rfl, rfl, rfl⟩, _, .here alone rfl filter context mode, ?_, ?_⟩
    · rw [hmode]
      refine .refreshed ?_
      rcases hrefresh with hd | hd
      · exact congrArg Compilation.dropProgram hd
      · exact (congrArg Compilation.dropProgram hd).trans rfl
    · intro build horderly
      have hall : (changed.foldl (fun d p ↦
          ((Compilation.refresh s.world p.normalize).run d).state) t.compilation).Orderly build :=
        horderly.foldl fun d p hd ↦ hd.refresh s.world p.normalize
      rcases hrefresh with hd | hd
      · exact hd ▸ hall
      · exact hd ▸ hall.dropProgram
  | remote serves mode =>
    obtain ⟨client, hclient, hrests, rfl⟩ := serves.client
    obtain ⟨hnext, hseq⟩ := run_forwardAll hworld hrests (hr t _ serves)
    have hperform : (perform (forwardAll s changed) (pure ())).run
        { i with compilation := ((refresh s changed).run i.compilation).state } = _ :=
      run_perform_remote hclient
    rw [result_forwardAll] at hperform
    obtain ⟨hresult, hstate⟩ := run_filesChanged hperform
    refine ⟨hresult, ?_⟩
    rw [hstate]
    refine ⟨⟨rfl, ?_, rfl, rfl⟩, _, .remote ⟨_, rfl, hnext, hseq⟩ mode,
      serves.isForked ▸ .mirrored rfl, ?_⟩
    · rw [isForked, isForked, hclient]
      rfl
    · exact fun build horderly ↦ horderly.foldl fun d p hd ↦ hd.mirror s.world p

theorem Presents.knownFiles (h : i.Presents home t n) (hworld : s.workers home = s.world)
    (hr : i.Carries home s.world .files) :
    (Command.knownFiles.run s i).1 = .files t.compilation.files.paths := by
  cases h with
  | here alone own _ _ _ =>
    rw [Command.run, Instance.knownFiles, run_perform_here alone, own]
    rfl
  | remote serves _ => exact (serves.answering hworld (hr t n serves)).knownFiles.1

theorem Presents.diagnostics (h : i.Presents home t n) (hworld : s.workers home = s.world)
    (hr : i.Carries home s.world .diagnostics) :
    let o := (Compilation.reports s.world t.filter t.settings.context).run t.compilation
    (i.isForked = true → ∀ l, o.result = .ok l → ∀ r ∈ l, r.Fits) →
      (Command.diagnostics.run s i).1 = .ofResult .reports (o.result.mapError .checker) := by
  intro o hfits
  cases h with
  | here alone own filter context _ => rw [run_diagnostics_here alone, own, filter, context]
  | remote serves _ =>
    exact ((serves.answering hworld (hr t n serves)).diagnostics (hfits serves.isForked)).1

section

variable {w : World} {r : Request} {requests : List Request}

theorem Serves.unique (h : i.Serves home t n) {t' : Session.Started} {n' : Nat}
    (h' : i.Serves home t' n') : t' = t ∧ n' = n := by
  obtain ⟨client, hclient, hrests, rfl⟩ := h.client
  obtain ⟨client', hclient', hrests', rfl⟩ := h'.client
  obtain rfl := Option.some.inj (hclient.symm.trans hclient')
  have hworker := hrests.connection.worker.symm.trans hrests'.connection.worker
  obtain ⟨-, hsession⟩ := Worker.serving.inj hworker
  exact ⟨(Option.some.inj (congrArg Session.started hsession)).symm, rfl⟩

theorem not_serves (h : i.isForked = false) : ¬i.Serves home t n := by
  intro serves
  rw [serves.isForked] at h
  cases h

theorem carries_of_alone (h : i.isForked = false) : i.Carries home w r :=
  fun _ _ serves ↦ absurd serves (not_serves h)

theorem Presents.unique (h : i.Presents home t n) {t' : Session.Started} {n' : Nat}
    (h' : i.Serves home t' n') : t' = t ∧ n' = n := by
  cases h with
  | here alone => exact absurd h' (not_serves (by rw [isForked, alone]; rfl))
  | remote serves => exact serves.unique h'

theorem Presents.carries (h : i.Presents home t n) (hr : Session.Carries w ⟨some t⟩ n r) :
    i.Carries home w r := by
  intro t' n' h'
  obtain ⟨rfl, rfl⟩ := h.unique h'
  exact hr

theorem Presents.carriesAll (h : i.Presents home t n)
    (hr : Session.CarriesAll w ⟨some t⟩ n requests) : i.CarriesAll home w requests := by
  intro t' n' h'
  obtain ⟨rfl, rfl⟩ := h.unique h'
  exact hr

end

end Instance

end TypedLoader
