import TypedLoader.Loader.Basic
import TypedLoader.Proofs.Checker.Turns

namespace TypedLoader.Loader

def setup (s : Surroundings) (config : LoaderConfig) (options : Json.Object) (bundler : Json) :
    Setup where
  compiler := s.world.compiler.info
  settings := { config.checkerSettings (config.context.getD s.workingDirectory) with
    case := some (config.case.getD s.world.defaultCase) }
  options := options
  bundler := bundler

def assemble (s : Surroundings) (config : LoaderConfig) (serial : Nat) (options : Json.Object)
    (filter : DiagnosticFilter) (checker : Option Client) : Instance where
  serial := serial
  config := config
  context := config.context.getD s.workingDirectory
  identifier := Instance.identifierOf s.world.compiler.info options
  compilation := Compilation.make options (config.case.getD s.world.defaultCase)
  checker := checker
  cache := if config.useCache then
    some ⟨(config.context.getD s.workingDirectory).join config.cacheDirectory⟩ else none
  filter := filter
  debouncer := { window := config.debounceMs }

def checkerFor (s : Surroundings) (config : LoaderConfig) (setup : Setup) : Act (Option Client) :=
  if config.forkChecker then do
    let client ← startChecker s config (config.context.getD s.workingDirectory) setup
    pure (some client)
  else pure none

def filterFor? (setup : Setup) : Option DiagnosticFilter :=
  DiagnosticFilter.make? (Json.Object.flag setup.options "skipLibCheck") setup.settings.reported
    setup.settings.ignored setup.settings.context

section Making

variable {s : Surroundings} {home : WorkerHome} {config : LoaderConfig} {bundler : Json}
  {l : Loader}

theorem run_make_of_error {e : ConfigError}
    (h : config.project l.disk (config.context.getD s.workingDirectory) = .error e) :
    ((make s config bundler).run l).result = .error (.config e) ∧
      ((make s config bundler).run l).state = l := by
  have hread : ((Action.ofExcept ((config.project l.disk
      (config.context.getD s.workingDirectory)).mapError LoadError.config) :
        Act Project).run l).result = .error (.config e) := by
    rw [h]
    rfl
  rw [make, Action.run_get_bind, Action.run_bind_of_error hread]
  exact ⟨rfl, rfl⟩

theorem run_make (s : Surroundings) (bundler : Json) {project : Project}
    (hproject : config.project l.disk (config.context.getD s.workingDirectory) = .ok project) :
    let checker := (checkerFor s config (setup s config project.compilerOptions bundler)).run l
    ((make s config bundler).run l).result = (checker.result.bind fun checker ↦
        match filterFor? (setup s config project.compilerOptions bundler) with
        | none => .error (.checker .badPattern)
        | some filter => .ok (assemble s config l.made project.compilerOptions filter checker)) ∧
      ((make s config bundler).run l).state = checker.state := by
  rw [make, Action.run_get_bind, Action.run_ofExcept_bind hproject, checkerFor]
  cases config.forkChecker with
  | false =>
    simp only [Bool.false_eq_true, if_false]
    rw [Action.run_pure_bind, filterFor?]
    simp only [Action.run_pure, Except.bind, setup, LoaderConfig.checkerSettings]
    cases DiagnosticFilter.make? (Json.Object.flag project.compilerOptions "skipLibCheck")
      config.reported config.ignored (config.context.getD s.workingDirectory) <;>
        exact ⟨rfl, rfl⟩
  | true =>
    simp only [if_true]
    obtain ⟨hresult, hstate⟩ := Action.run_bind_pure (startChecker s config
      (config.context.getD s.workingDirectory) (setup s config project.compilerOptions bundler))
      some l
    rw [hresult, hstate, filterFor?]
    cases hstart : ((startChecker s config (config.context.getD s.workingDirectory)
      (setup s config project.compilerOptions bundler)).run l).result with
    | error e =>
      have hrun := fun f : Client → Act Instance ↦ Action.run_bind_of_error hstart f
      simp only [setup, LoaderConfig.checkerSettings] at hrun ⊢
      rw [hrun]
      exact ⟨rfl, rfl⟩
    | ok client =>
      have hrun := fun f : Client → Act Instance ↦ Action.run_bind_of_ok hstart f
      simp only [setup, LoaderConfig.checkerSettings] at hrun ⊢
      rw [hrun, Action.run_pure_bind]
      simp only [Outcome.after, Except.bind, Except.map]
      cases DiagnosticFilter.make? (Json.Object.flag project.compilerOptions "skipLibCheck")
        config.reported config.ignored (config.context.getD s.workingDirectory) <;>
          exact ⟨rfl, rfl⟩

theorem checkerFor_here (h : config.forkChecker = false) (setup : Setup) :
    (checkerFor s config setup).run l = ⟨.ok none, l, []⟩ := by
  rw [checkerFor, h]
  rfl

theorem checkerFor_forked (h : config.forkChecker = true) (setup : Setup) :
    let o := (startChecker s config (config.context.getD s.workingDirectory) setup).run l
    ((checkerFor s config setup).run l).result = o.result.map some ∧
      ((checkerFor s config setup).run l).state = o.state := by
  rw [checkerFor, if_pos h]
  exact Action.run_bind_pure ..

theorem assembled_of_make {i : Instance} (h : ((make s config bundler).run l).result = .ok i) :
    ∃ project checker filter,
      config.project l.disk (config.context.getD s.workingDirectory) = .ok project ∧
      ((checkerFor s config (setup s config project.compilerOptions bundler)).run l).result =
        .ok checker ∧
      filterFor? (setup s config project.compilerOptions bundler) = some filter ∧
      i = assemble s config l.made project.compilerOptions filter checker := by
  cases hproject : config.project l.disk (config.context.getD s.workingDirectory) with
  | error e =>
    rw [(run_make_of_error hproject).1] at h
    cases h
  | ok project =>
    rw [(run_make s bundler hproject).1] at h
    cases hchecker : ((checkerFor s config (setup s config project.compilerOptions bundler)).run
        l).result with
    | error e =>
      rw [hchecker] at h
      cases h
    | ok checker =>
      rw [hchecker] at h
      simp only [Except.bind] at h
      split at h
      · cases h
      · rename_i filter hfilter
        exact ⟨project, checker, filter, rfl, hchecker, hfilter, (Except.ok.inj h).symm⟩

theorem make_here {here : Instance} (hlocal : config.forkChecker = false)
    (h : ((make s config bundler).run l).result = .ok here) :
    ∃ project filter,
      config.project l.disk (config.context.getD s.workingDirectory) = .ok project ∧
      filterFor? (setup s config project.compilerOptions bundler) = some filter ∧
      here = assemble s config l.made project.compilerOptions filter none := by
  obtain ⟨project, checker, filter, hproject, hchecker, hfilter, rfl⟩ := assembled_of_make h
  rw [checkerFor_here hlocal] at hchecker
  obtain rfl := Except.ok.inj hchecker
  exact ⟨project, filter, hproject, hfilter, rfl⟩

theorem run_make_here (s : Surroundings) (bundler : Json) {project : Project} {filter : DiagnosticFilter}
    (hlocal : config.forkChecker = false)
    (hproject : config.project l.disk (config.context.getD s.workingDirectory) = .ok project)
    (hfilter : filterFor? (setup s config project.compilerOptions bundler) = some filter) :
    ((make s config bundler).run l).result =
        .ok (assemble s config l.made project.compilerOptions filter none) ∧
      ((make s config bundler).run l).state = l := by
  obtain ⟨hresult, hstate⟩ := run_make s bundler hproject
  rw [checkerFor_here hlocal, hfilter] at hresult
  rw [checkerFor_here hlocal] at hstate
  exact ⟨hresult, hstate⟩

theorem result_init (w : World) (setup : Setup) :
    ((Session.handle w (.init setup)).run {}).result =
      match filterFor? setup with
      | none => .error .badPattern
      | some _ => .ok .null := by
  cases h : filterFor? setup with
  | none =>
    rw [filterFor?] at h
    simp only [Session.handle, Session.init, h]
    rfl
  | some filter =>
    rw [filterFor?] at h
    simp only [Session.handle, Session.init, h]
    rfl

theorem started_init (w : World) {setup : Setup} {filter : DiagnosticFilter}
    (hfilter : filterFor? setup = some filter) :
    (Session.served w [.init setup]).started = some ⟨Compilation.make setup.options
      (setup.settings.case.getD w.defaultCase), setup.settings, filter⟩ := by
  have hserved : Session.served w [.init setup] = ((Session.init w setup).run {}).state := rfl
  rw [filterFor?] at hfilter
  rw [hserved, Session.init, hfilter]
  rfl

theorem sendable_init {w : World} {setup : Setup}
    (hcodes : ∀ code ∈ setup.settings.ignored, code < UInt32.size)
    (hsetup : setup.toJson.Portable (Json.maxDepth - 1))
    (hframes : Session.FramesFit w [.init setup]) : Session.Sendable w [] (.init setup) := by
  have hframes : Session.FramesFit w ([] ++ [.init setup]) := hframes
  refine ⟨hcodes, ⟨Request.portable_envelope (by decide) hsetup, hframes.request⟩,
    ⟨Response.portable_ofResult (by decide) ?_, hframes.response⟩⟩
  intro payload hok
  have hinit := (result_init w setup).symm.trans hok
  split at hinit
  · cases hinit
  · obtain rfl := Except.ok.inj hinit
    exact .null

theorem run_setUp_eq (s : Surroundings) (setup : Setup) (client : Client) {c : Client}
    (hc : { ((Client.settle s.workers).run client).state with setup := some setup } = c) :
    let o := (Client.await ⟨c.nextSeq, Client.done?⟩).run (c.asked s.workers (.init setup))
    ((setUp s setup).run client).result = o.result ∧
      ((setUp s setup).run client).state = o.state := by
  subst hc
  exact ⟨rfl, rfl⟩

theorem run_setUp {setup : Setup} {client : Client} (h : client.InStep s.workers home [])
    (hr : Session.Sendable (s.workers home) [] (.init setup)) :
    ((setUp s setup).run client).result =
        (((Session.handle (s.workers home) (.init setup)).run {}).result.map
          fun _ ↦ ()).mapError CheckError.sent ∧
      ((setUp s setup).run client).state.InStep s.workers home [.init setup] := by
  have hstep := h.settle.withSetup setup
  generalize hc : { ((Client.settle s.workers).run client).state with setup := some setup } = c
    at hstep
  have hawait := hstep.run_await Client.done? hr (by decide)
  have hrun := run_setUp_eq s setup client hc
  have hserved : Session.served (s.workers home) [] = {} := rfl
  rw [hawait, hserved] at hrun
  rw [hrun.1, hrun.2, result_init]
  refine ⟨?_, (hstep.asked hr (by decide)).1⟩
  split <;> rfl

variable {connector : Connector} {setup : Setup}

theorem run_startChecker_of (setup : Setup) {client : Client} (hconnector : s.launcher.connector config
      (config.context.getD s.workingDirectory) = .ok connector)
    (hclient : Client.start connector config.sendPolicy l.starts = .ok client) :
    let o := (setUp s setup).run client
    ((startChecker s config (config.context.getD s.workingDirectory) setup).run l).result =
        (o.result.mapError LoadError.checker).map (fun _ ↦ o.state) ∧
      ((startChecker s config (config.context.getD s.workingDirectory) setup).run l).state =
        { l with starts := l.starts + 1 } := by
  have hcount (f : Nat → Act Client) : (countStart >>= f).run l =
      (f l.starts).run { l with starts := l.starts + 1 } := rfl
  rw [startChecker, Action.run_ofExcept_bind hconnector, hcount, Action.run_ofExcept_bind hclient,
    Action.result_execOn, Action.state_execOn, Action.run_mapError]
  exact ⟨rfl, rfl⟩

/-- A checker in a worker of this program is set up, unless a pattern is malformed. -/
theorem run_startChecker (hconnector : s.launcher.connector config
      (config.context.getD s.workingDirectory) = .ok connector)
    (hworker : connector l.starts = .ok (.serving home {}))
    (hr : Session.Sendable (s.workers home) [] (.init setup)) :
    ∃ client : Client, client.InStep s.workers home [.init setup] ∧
      ((startChecker s config (config.context.getD s.workingDirectory) setup).run l).result =
        (match filterFor? setup with
          | none => .error (.checker CheckError.badPattern.sent)
          | some _ => .ok client) ∧
      ((startChecker s config (config.context.getD s.workingDirectory) setup).run l).state =
        { l with starts := l.starts + 1 } := by
  obtain ⟨client, hclient⟩ : ∃ client, Client.start connector config.sendPolicy l.starts =
      .ok client := by
    rw [Client.start, hworker]
    exact ⟨_, rfl⟩
  obtain ⟨hresult, hstep⟩ := run_setUp (Client.inStep_start (w := s.workers) hworker hclient) hr
  refine ⟨((setUp s setup).run client).state, hstep, ?_⟩
  rw [(run_startChecker_of setup hconnector hclient).1,
    (run_startChecker_of setup hconnector hclient).2, hresult, result_init]
  refine ⟨?_, rfl⟩
  split <;> rfl

end Making

end TypedLoader.Loader
