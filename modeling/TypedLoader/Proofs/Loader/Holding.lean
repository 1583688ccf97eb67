import TypedLoader.Loader.Load
import TypedLoader.Proofs.Loader.Making
import TypedLoader.Proofs.Loader.Serving
import TypedLoader.Proofs.Modules

namespace TypedLoader

namespace Loader

variable {s : Surroundings} {home : WorkerHome} {config : LoaderConfig} {bundler : Json}
  {l : Loader} {setup : Setup} {client : Client}

theorem run_setUp_of_rests (h : client.Rests home {})
    (hr : Session.Carries (s.workers home) {} client.nextSeq (.init setup)) :
    let o := (Session.handle (s.workers home) (.init setup)).run {}
    ((setUp s setup).run client).result =
        (o.result.map fun _ ↦ ()).mapError CheckError.sent ∧
      ((setUp s setup).run client).state.Rests home o.state ∧
      ((setUp s setup).run client).state.nextSeq = client.nextSeq + 1 := by
  intro o
  have hrest := (h.settle (w := s.workers)).withSetup setup
  generalize hc : { ((Client.settle s.workers).run client).state with setup := some setup } = c
    at hrest
  have hseq : c.nextSeq = client.nextSeq := by rw [← hc]; rfl
  rw [← hseq] at hr
  have hawait := hrest.run_await Client.done? hr
  obtain ⟨hnext, hnumber, -⟩ := hrest.asked hr
  have hrun := run_setUp_eq s setup client hc
  rw [hawait] at hrun
  rw [hrun.1, hrun.2]
  refine ⟨?_, hnext, hnumber.trans (congrArg (· + 1) hseq)⟩
  simp only [o, result_init]
  split <;> rfl

theorem serves_make {connector : Connector}
    (hworld : s.workers home = s.world) (hforked : config.forkChecker = true)
    (hconnector : s.launcher.connector config (config.context.getD s.workingDirectory) =
      .ok connector)
    (hworker : connector l.starts = .ok (.serving home {})) {project : Project}
    (hproject : config.project l.disk (config.context.getD s.workingDirectory) = .ok project)
    (hr : Session.Carries s.world {} 1 (.init (Loader.setup s config project.compilerOptions
      bundler))) :
    ((make s config bundler).run l).state = { l with starts := l.starts + 1 } ∧
      match filterFor? (Loader.setup s config project.compilerOptions bundler) with
      | none => ∃ e, ((make s config bundler).run l).result = .error e
      | some filter => ∃ client,
        ((make s config bundler).run l).result =
          .ok (assemble s config l.made project.compilerOptions filter (some client)) ∧
        (assemble s config l.made project.compilerOptions filter (some client)).Serves home
          ⟨Compilation.make project.compilerOptions (config.case.getD s.world.defaultCase),
            (Loader.setup s config project.compilerOptions bundler).settings, filter⟩ 2 := by
  obtain ⟨hmake, hstate⟩ := run_make s bundler hproject
  rw [(checkerFor_forked hforked _).1] at hmake
  rw [(checkerFor_forked hforked _).2] at hstate
  generalize hsetup : Loader.setup s config project.compilerOptions bundler = setup at *
  have hcompilation : setup.options = project.compilerOptions ∧
      setup.settings.case = some (config.case.getD s.world.defaultCase) := by
    rw [← hsetup]
    exact ⟨rfl, rfl⟩
  obtain ⟨client, hclient⟩ : ∃ client, Client.start connector config.sendPolicy l.starts =
      .ok client := by
    rw [Client.start, hworker]
    exact ⟨_, rfl⟩
  obtain ⟨hrests, hseq⟩ := Client.rests_start hworker hclient
  have hinit : Session.Carries (s.workers home) {} client.nextSeq (.init setup) := by
    rw [hseq, hworld]
    exact hr
  obtain ⟨hresult, hnext, hnumber⟩ := run_setUp_of_rests hrests hinit
  obtain ⟨hstart, hstarts⟩ := run_startChecker_of setup hconnector hclient
  refine ⟨hstate.trans hstarts, ?_⟩
  rw [hstart, hresult, hworld, result_init] at hmake
  cases hfilter : filterFor? setup with
  | none =>
    rw [hfilter] at hmake
    exact ⟨_, hmake⟩
  | some filter =>
    rw [hfilter] at hmake
    refine ⟨_, hmake, _, rfl, ?_, ?_⟩
    · have hstarted := started_init s.world hfilter
      have hserved : ((Session.handle s.world (.init setup)).run {}).state =
          ⟨some ⟨Compilation.make setup.options (setup.settings.case.getD s.world.defaultCase),
            setup.settings, filter⟩⟩ := congrArg Session.mk hstarted
      rw [hcompilation.1, hcompilation.2, Option.getD_some] at hserved
      rw [← hserved, ← hworld]
      exact hnext
    · rw [hnumber, hseq]

end Loader

namespace Instance

inductive Holds (home : WorkerHome) (c : Compilation) (i : Instance) : Prop
  | here (alone : i.checker = none) (own : i.compilation = c)
  | remote {t : Session.Started} {n : Nat} (serves : i.Serves home t n) (own : t.compilation = c)
      (mode : t.settings.transpileOnly = i.config.transpileOnly)

/-- The instance answers as this session would: that of its checker, which is asked with
the number `n` next, or one that is made of its own compilation and filter. -/
inductive Presents (home : WorkerHome) (t : Session.Started) (n : Nat) (i : Instance) : Prop
  | here (alone : i.checker = none) (own : i.compilation = t.compilation)
      (filter : i.filter = t.filter) (context : i.context = t.settings.context)
      (mode : t.settings.transpileOnly = i.config.transpileOnly)
  | remote (serves : i.Serves home t n)
      (mode : t.settings.transpileOnly = i.config.transpileOnly)

def Carries (home : WorkerHome) (w : World) (r : Request) (i : Instance) : Prop :=
  ∀ t n, i.Serves home t n → Session.Carries w ⟨some t⟩ n r

/-- What an instance was made with, and what the loader sees of it. -/
structure SameSetup (i i' : Instance) : Prop where
  config : i'.config = i.config
  forked : i'.isForked = i.isForked
  identifier : i'.identifier = i.identifier
  cache : i'.cache = i.cache

variable {s : Surroundings} {home : WorkerHome} {i : Instance} {t : Session.Started} {n : Nat}
  {c : Compilation} {file : Path} {text : String}

theorem Serves.isForked {t : Session.Started} {n : Nat} (h : i.Serves home t n) :
    i.isForked = true := by
  obtain ⟨client, hclient, -⟩ := h.client
  rw [Instance.isForked, hclient]
  rfl

theorem Presents.holds (h : i.Presents home t n) : i.Holds home t.compilation := by
  cases h with
  | here alone own => exact .here alone own
  | remote serves mode => exact .remote serves rfl mode

theorem Holds.presents (h : i.Holds home c) : ∃ t n, t.compilation = c ∧ i.Presents home t n := by
  cases h with
  | here alone own =>
    let settings : CheckerSettings :=
      { transpileOnly := i.config.transpileOnly, context := i.context }
    exact ⟨⟨c, settings, i.filter⟩, 0, rfl, .here alone own rfl rfl rfl⟩
  | @remote t n serves own mode => exact ⟨t, n, own, .remote serves mode⟩

theorem Presents.withDebouncer (h : i.Presents home t n) (debouncer : Debouncer) :
    Presents home t n { i with debouncer } := by
  cases h with
  | here alone own filter context mode => exact .here alone own filter context mode
  | remote serves mode => exact .remote ⟨serves.client⟩ mode

theorem SameSetup.name {i' : Instance} (h : SameSetup i i') : i'.name = i.name :=
  congrArg LoaderConfig.instanceName h.config

theorem sameSetup_perform {α : Type} (remote : Client.Act α)
    (here : Action Compilation LoadError α) (i : Instance) :
    SameSetup i ((perform remote here).run i).state := by
  cases hc : i.checker with
  | none =>
    rw [run_perform_here hc]
    exact ⟨rfl, rfl, rfl, rfl⟩
  | some client =>
    rw [run_perform_remote hc]
    exact ⟨rfl, by rw [isForked, isForked, hc]; rfl, rfl, rfl⟩

theorem sameSetup_register (s : Surroundings) (file : Path) (text : String) (i : Instance) :
    SameSetup i ((Instance.register s file text).run i).state := sameSetup_perform _ _ i

theorem sameSetup_compile (s : Surroundings) (file : Path) (text : String) (i : Instance) :
    SameSetup i ((Instance.compile s file text).run i).state := by
  have hkeeps : Action.Keeps (SameSetup i) (Instance.compile s file text) := by
    refine .bind Action.keeps_get fun j ↦ .bind (fun i' h ↦ ?_) fun compiled ↦ ?_
    · have hp := sameSetup_perform (emitRemote s.workers file text)
        (((Compilation.compile s.world file text j.config.transpileOnly).mapError
          LoadError.compile) >>= fun m ↦ pure (some m)) i'
      exact ⟨hp.config.trans h.config, hp.forked.trans h.forked, hp.identifier.trans h.identifier,
        hp.cache.trans h.cache⟩
    · split
      · exact Action.keeps_pure _
      · exact Action.keeps_fail _
  exact hkeeps i ⟨rfl, rfl, rfl, rfl⟩

theorem Presents.register (h : i.Presents home t n) (hworld : s.workers home = s.world)
    (hr : i.Carries home s.world (.registerFile file text)) :
    let o := (Compilation.register s.world file text).run t.compilation
    (∃ f, ((Instance.register s file text).run i).result = o.result.mapError f) ∧
      ((Instance.register s file text).run i).state.Presents home
        { t with compilation := o.state } (n + 1) := by
  have hconfig := (sameSetup_register s file text i).config
  cases h with
  | here alone own filter context mode =>
    obtain ⟨hresult, hstate⟩ := run_register_here s file text alone
    rw [own] at hresult hstate
    refine ⟨⟨_, hresult⟩, ?_⟩
    rw [hstate]
    exact .here alone rfl filter context mode
  | remote serves mode =>
    obtain ⟨hresult, hnext⟩ := (serves.answering hworld (hr t n serves)).register
    exact ⟨⟨_, hresult⟩, .remote hnext (hconfig ▸ mode)⟩

theorem Presents.compile (h : i.Presents home t n) (hworld : s.workers home = s.world)
    (hfile : i.isForked = true → file.fileName?.isSome)
    (hr : i.Carries home s.world (.emitFile file text)) :
    let o := (Compilation.compile s.world file text i.config.transpileOnly).run t.compilation
    (∃ f, ((Instance.compile s file text).run i).result.map LoadedModule.ofCompiled =
        (o.result.map LoadedModule.ofCompiled).mapError f ∧ ∀ e, f e ≠ .checker .exited) ∧
      ((Instance.compile s file text).run i).state.Presents home
        { t with compilation := o.state } (n + 1) := by
  intro o
  have hconfig := (sameSetup_compile s file text i).config
  cases h with
  | here alone own filter context mode =>
    obtain ⟨hresult, hstate⟩ := run_compile_here s file text alone
    rw [own] at hresult hstate
    refine ⟨⟨LoadError.compile, ?_, fun _ he ↦ by cases he⟩, ?_⟩
    · rw [hresult]
      cases ((Compilation.compile s.world file text i.config.transpileOnly).run
        t.compilation).result <;> rfl
    · rw [hstate]
      exact .here alone rfl filter context mode
  | remote serves mode =>
    obtain ⟨hresult, hnext⟩ := (serves.answering hworld (hr t n serves)).compile (hfile serves.isForked)
    rw [mode] at hresult hnext
    refine ⟨⟨fun e ↦ .checker (CheckError.compile e).sent, ?_, fun _ he ↦ by cases he⟩,
      .remote hnext (hconfig ▸ mode)⟩
    rw [hresult]
    cases ((Compilation.compile s.world file text i.config.transpileOnly).run
      t.compilation).result <;> rfl

end Instance

end TypedLoader
