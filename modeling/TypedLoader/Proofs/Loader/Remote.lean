import TypedLoader.Loader.Basic
import TypedLoader.Proofs.Checker.Handling
import TypedLoader.Proofs.Checker.Turns

namespace TypedLoader

def CompiledModule.bare (m : CompiledModule) : CompiledModule :=
  ⟨{ m.output with diagnostics := [] }, m.deps⟩

namespace Instance

section Performing

variable {α : Type} {i : Instance} {remote : Client.Act α} {here : Action Compilation LoadError α}

theorem run_perform_here (h : i.checker = none) : (perform remote here).run i =
    ⟨(here.run i.compilation).result, { i with compilation := (here.run i.compilation).state },
      (here.run i.compilation).calls⟩ := by
  have hp : perform remote here i = onCompilation here i := by rw [perform, h]
  rw [Action.run, hp]
  rfl

theorem run_perform_remote {client : Client} (h : i.checker = some client) :
    (perform remote here).run i =
      ⟨(remote.run client).result.mapError .checker,
        { i with checker := some (remote.run client).state }, (remote.run client).calls⟩ := by
  have hr := Action.run_mapError LoadError.checker remote client
  rw [Action.run, perform, h]
  simp only
  rw [Action.run] at hr
  rw [hr]

theorem run_perform_ask (here : Action Compilation LoadError α) {client client' : Client}
    {w : Workers} {r : Request} {read? : Json → Option α} {x : Except CheckError α} (h : i.checker = some client)
    (hawait : (Client.await ⟨client.nextSeq, read?⟩).run (client.asked w r) = ⟨x, client', []⟩) :
    ((perform (Client.ask w r read? >>= Client.await) here).run i).result =
        x.mapError .checker ∧
      ((perform (Client.ask w r read? >>= Client.await) here).run i).state =
        { i with checker := some client' } := by
  have hresult : ((Client.ask w r read? >>= Client.await).run client).result =
      ((Client.await ⟨client.nextSeq, read?⟩).run (client.asked w r)).result := rfl
  have hstate : ((Client.ask w r read? >>= Client.await).run client).state =
      ((Client.await ⟨client.nextSeq, read?⟩).run (client.asked w r)).state := rfl
  rw [run_perform_remote h, hresult, hstate, hawait]
  exact ⟨rfl, rfl⟩

variable {s : Surroundings} {file : Path} {text : String}

theorem run_compile (s : Surroundings) (file : Path) (text : String) (i : Instance) :
    (compile s file text).run i = (perform (emitRemote s.workers file text)
      (((Compilation.compile s.world file text i.config.transpileOnly).mapError .compile) >>=
        fun m ↦ pure (some m)) >>= fun compiled ↦ match compiled with
          | some m => pure m
          | none => Action.fail (.compile (.noOutput file)) : Act CompiledModule).run i := rfl

theorem run_compile_here (s : Surroundings) (file : Path) (text : String) (h : i.checker = none) :
    ((compile s file text).run i).result =
        ((Compilation.compile s.world file text i.config.transpileOnly).run
          i.compilation).result.mapError .compile ∧
      ((compile s file text).run i).state = { i with compilation :=
        ((Compilation.compile s.world file text i.config.transpileOnly).run
          i.compilation).state } := by
  obtain ⟨hresult, hstate⟩ := Action.run_bind_pure
    ((Compilation.compile s.world file text i.config.transpileOnly).mapError LoadError.compile)
    some i.compilation
  rw [run_compile, Action.run_bind, run_perform_here h, hresult, hstate, Action.run_mapError]
  cases ((Compilation.compile s.world file text i.config.transpileOnly).run
    i.compilation).result <;> exact ⟨rfl, rfl⟩

theorem run_register_here (s : Surroundings) (file : Path) (text : String) (h : i.checker = none) :
    ((register s file text).run i).result =
        ((Compilation.register s.world file text).run i.compilation).result.mapError .compile ∧
      ((register s file text).run i).state = { i with compilation :=
        ((Compilation.register s.world file text).run i.compilation).state } := by
  rw [register, run_perform_here h, Action.run_mapError]
  exact ⟨rfl, rfl⟩

def moduleOf (file : Path) (reply : EmitReply) : Except LoadError CompiledModule :=
  match reply.compiled? with
  | some output => .ok ⟨output, reply.deps⟩
  | none => .error (.compile (.noOutput file))

theorem run_compile_remote {client client' : Client} (h : i.checker = some client)
    {reply : Except CheckError EmitReply}
    (hawait : (Client.await ⟨client.nextSeq, EmitReply.ofJson?⟩).run
      (client.asked s.workers (.emitFile file text)) = ⟨reply, client', []⟩) :
    ((compile s file text).run i).result =
        (reply.mapError .checker).bind (moduleOf file) ∧
      ((compile s file text).run i).state = { i with checker := some client' } := by
  obtain ⟨hresult, hstate⟩ := Action.run_bind_pure
    (Client.await ⟨client.nextSeq, EmitReply.ofJson?⟩)
    (fun r : EmitReply ↦ r.compiled?.map fun output ↦ (⟨output, r.deps⟩ : CompiledModule))
    (client.asked s.workers (.emitFile file text))
  have hremote : ((emitRemote s.workers file text).run client).result =
      reply.map fun r ↦ r.compiled?.map fun output ↦ ⟨output, r.deps⟩ := by
    rw [hawait] at hresult
    exact hresult
  have hnext : ((emitRemote s.workers file text).run client).state = client' := by
    rw [hawait] at hstate
    exact hstate
  rw [run_compile, Action.run_bind, run_perform_remote h, hremote, hnext]
  cases reply with
  | error e => exact ⟨rfl, rfl⟩
  | ok r =>
    simp only [Except.map, Except.mapError, Except.bind, moduleOf]
    cases r.compiled? <;> exact ⟨rfl, rfl⟩

end Performing

/-- The checker answers the request with the result of an action on the compilation of its
session. What holds of the instance then is said of the compilation that this leaves. -/
def Answering (s : Surroundings) (t : Session.Started) (r : Request)
    (next : Compilation → Instance → Prop) (i : Instance) : Prop :=
  ∀ ⦃α β : Type⦄ (a : Session.Started → Action Compilation CheckError α) (content : α → Json)
    (read? : Json → Option β) (f : α → β),
    (Session.handle s.world r = Session.onCompilation fun t ↦ a t >>= fun x ↦ pure (content x)) →
    (∀ x, ((a t).run t.compilation).result = .ok x → read? (content x) = some (f x)) →
    ∃ client, i.checker = some client ∧
      (Client.await ⟨client.nextSeq, read?⟩).run (client.asked s.workers r) =
        ⟨(((a t).run t.compilation).result.map f).mapError CheckError.sent,
          client.asked s.workers r, []⟩ ∧
      next ((a t).run t.compilation).state { i with checker := some (client.asked s.workers r) }

namespace Answering

variable {s : Surroundings} {t : Session.Started} {next : Compilation → Instance → Prop}
  {i : Instance} {r : Request} {file : Path} {text : String} {α β : Type}

theorem ask (h : Answering s t r next i) (a : Session.Started → Action Compilation CheckError α)
    (content : α → Json) (read? : Json → Option β) (f : α → β)
    (hhandle : Session.handle s.world r =
      Session.onCompilation fun t ↦ a t >>= fun x ↦ pure (content x))
    (hread : ∀ x, ((a t).run t.compilation).result = .ok x → read? (content x) = some (f x))
    (other : Action Compilation LoadError β) :
    let o := (perform (Client.ask s.workers r read? >>= Client.await) other).run i
    o.result = (((a t).run t.compilation).result.map f).mapError (fun e ↦ .checker e.sent) ∧
      next ((a t).run t.compilation).state o.state := by
  obtain ⟨client, hclient, hawait, hnext⟩ := h a content read? f hhandle hread
  obtain ⟨hresult, hstate⟩ := run_perform_ask other hclient hawait
  simp only [hresult, hstate]
  refine ⟨?_, hnext⟩
  cases ((a t).run t.compilation).result <;> rfl

theorem compile (h : Answering s t (.emitFile file text) next i) (hfile : file.fileName?.isSome) :
    let o := (Compilation.compile s.world file text t.settings.transpileOnly).run t.compilation
    ((Instance.compile s file text).run i).result =
        (o.result.map CompiledModule.bare).mapError (fun e ↦ .checker (CheckError.compile e).sent) ∧
      next o.state ((Instance.compile s file text).run i).state := by
  intro o
  obtain ⟨client, hclient, hawait, hnext⟩ := h
    (fun t ↦ (Compilation.compile s.world file text t.settings.transpileOnly).mapError
      CheckError.compile)
    (fun m ↦ (EmitReply.ofCompiled file m.output m.deps).toJson) EmitReply.ofJson?
    (fun m ↦ EmitReply.ofCompiled file m.output m.deps) rfl
    fun m _ ↦ EmitReply.ofJson?_toJson _
  obtain ⟨hresult, hstate⟩ := run_compile_remote hclient hawait
  rw [Action.run_mapError] at hresult hnext
  refine ⟨?_, hstate ▸ hnext⟩
  rw [hresult]
  cases o.result with
  | ok m =>
    simp only [Except.mapError, Except.map, Except.bind, moduleOf,
      EmitReply.compiled?_ofCompiled hfile]
    rfl
  | error e => rfl

theorem register (h : Answering s t (.registerFile file text) next i) :
    let o := (Compilation.register s.world file text).run t.compilation
    ((Instance.register s file text).run i).result =
        o.result.mapError (fun e ↦ .checker (CheckError.compile e).sent) ∧
      next o.state ((Instance.register s file text).run i).state := by
  intro o
  obtain ⟨hresult, hnext⟩ := h.ask
    (fun _ ↦ (Compilation.register s.world file text).mapError CheckError.compile)
    FileDeps.toJson FileDeps.ofJson? id rfl (fun deps _ ↦ deps.ofJson?_toJson)
    ((Compilation.register s.world file text).mapError .compile)
  rw [Action.run_mapError] at hresult hnext
  refine ⟨hresult.trans ?_, hnext⟩
  cases o.result <;> rfl

end Answering

/-- The checker of the instance has handled these requests, and its session is as
given. -/
structure Remote (s : Surroundings) (home : WorkerHome) (requests : List Request)
    (t : Session.Started) (i : Instance) : Prop where
  client : ∃ client, i.checker = some client ∧ client.InStep s.workers home requests
  started : (Session.served s.world requests).started = some t

namespace Remote

variable {s : Surroundings} {home : WorkerHome} {requests : List Request} {t : Session.Started}
  {i : Instance} {r : Request} {α : Type}

theorem answering (h : Remote s home requests t i) (hworld : s.workers home = s.world)
    (hr : Session.Sendable s.world requests r) (small : requests.length + 1 < UInt64.size) :
    Answering s t r
      (fun c ↦ Remote s home (requests ++ [r]) { t with compilation := c }) i := by
  intro α β a content read? f hhandle hread
  obtain ⟨client, hclient, hstep⟩ := h.client
  rw [← hworld] at hr
  have hawait := hstep.run_await read? hr small
  obtain ⟨hresult, hstarted⟩ := Session.run_handle_of a content h.started hhandle
  rw [hworld, hresult, Promise.result_received _ hread] at hawait
  refine ⟨client, hclient, hawait, ⟨_, rfl, (hstep.asked hr small).1⟩, ?_⟩
  rw [Session.served_concat, hstarted]

theorem payload (h : Remote s home requests t i)
    (a : Session.Started → Action Compilation CheckError α) (content : α → Json) {payload : Json}
    (hhandle : Session.handle s.world r =
      Session.onCompilation fun t ↦ a t >>= fun x ↦ pure (content x))
    (hok : ((Session.handle s.world r).run (Session.served s.world requests)).result =
      .ok payload) :
    ∃ x, ((a t).run t.compilation).result = .ok x ∧ payload = content x := by
  rw [(Session.run_handle_of a content h.started hhandle).1] at hok
  cases hx : ((a t).run t.compilation).result with
  | error e =>
    rw [hx] at hok
    cases hok
  | ok x =>
    rw [hx] at hok
    exact ⟨x, rfl, (Except.ok.inj hok).symm⟩

end Remote

end Instance

end TypedLoader
