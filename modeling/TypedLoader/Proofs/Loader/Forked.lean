import TypedLoader.Proofs.Alone
import TypedLoader.Proofs.Checker.Findings
import TypedLoader.Proofs.Checker.Rest
import TypedLoader.Proofs.Loader.Making
import TypedLoader.Proofs.Loader.Remote

namespace TypedLoader

theorem Compilation.isMissingOutput_reports {w : World} {f : DiagnosticFilter} {context : Path}
    {c : Compilation} {e : CheckError} (h : ((reports w f context).run c).result = .error e) :
    e.sent.isMissingOutput = e.isMissingOutput := by
  cases hprogram : ((program w).run c).result with
  | error e' =>
    rw [run_reports_of_error hprogram] at h
    cases h
    exact CompileError.isMissingOutput_sent e'
  | ok latest =>
    rw [run_reports_of_ok f context hprogram] at h
    split at h
    · cases h
    · cases h
      rfl

namespace Instance

inductive Command where
  | compile (file : Path) (text : String)
  | register (file : Path) (text : String)
  | knownFiles
  | diagnostics

inductive Answer where
  | module (text : String) (sourceMap : Option String) (fast : Bool) (deps : FileDeps)
  | registered (deps : FileDeps)
  | files (paths : List Path)
  | reports (reports : List Report)
  | failed (missingOutput : Bool)

def Answer.Fits : Answer → Prop
  | .reports l => ∀ r ∈ l, r.Fits
  | _ => True

def Answer.ofResult {α : Type} (answer : α → Answer) : Except LoadError α → Answer
  | .ok x => answer x
  | .error e => .failed e.isMissingOutput

namespace Command

/-- The answer to a command, and the instance after it. -/
def run (s : Surroundings) (i : Instance) : Command → Answer × Instance
  | .compile file text =>
    let o := (Instance.compile s file text).run i
    (.ofResult (fun m ↦ .module m.output.text m.output.sourceMap m.output.fast m.deps) o.result,
      o.state)
  | .register file text =>
    let o := (Instance.register s file text).run i
    (.ofResult .registered o.result, o.state)
  | .knownFiles =>
    let o := (Instance.knownFiles s).run i
    (.ofResult .files o.result, o.state)
  | .diagnostics =>
    let o := (Instance.diagnostics s).run i
    (.ofResult .reports o.result, o.state)

def request : Command → Request
  | .compile file text => .emitFile file text
  | .register file text => .registerFile file text
  | .knownFiles => .files
  | .diagnostics => .diagnostics

end Command

def Command.Named : Command → Prop
  | .compile file _ => file.fileName?.isSome
  | _ => True

instance : DecidablePred Command.Named
  | .compile file _ => inferInstanceAs (Decidable (file.fileName?.isSome = true))
  | .register .. | .knownFiles | .diagnostics => inferInstanceAs (Decidable True)

def answers (s : Surroundings) : Instance → List Command → List Answer
  | _, [] => []
  | i, k :: rest => (k.run s i).1 :: answers s (k.run s i).2 rest

theorem run_diagnostics (s : Surroundings) (i : Instance) : (Instance.diagnostics s).run i =
    (perform (Client.diagnostics s.workers >>= Client.await)
      ((Compilation.reports s.world i.filter i.context).mapError .checker)).run i := by
  rw [Instance.diagnostics, Action.run_get_bind]

theorem run_diagnostics_here {s : Surroundings} {i : Instance} (h : i.checker = none) :
    Command.diagnostics.run s i = (.ofResult .reports (((Compilation.reports s.world i.filter
        i.context).run i.compilation).result.mapError .checker),
      { i with compilation :=
        ((Compilation.reports s.world i.filter i.context).run i.compilation).state }) := by
  rw [Command.run, run_diagnostics, run_perform_here h, Action.run_mapError]

section Answering

variable {s : Surroundings} {t : Session.Started} {next : Compilation → Instance → Prop}
  {i : Instance}

theorem Answering.knownFiles (h : Answering s t .files next i) :
    (Command.knownFiles.run s i).1 = .files t.compilation.files.paths ∧
      next t.compilation (Command.knownFiles.run s i).2 := by
  obtain ⟨hresult, hnext⟩ := h.ask (fun _ ↦ Action.get)
    (fun c ↦ Json.strings (c.files.paths.map (·.text))) FileDeps.pathList?
    (fun c ↦ c.files.paths) rfl (fun _ _ ↦ FileDeps.pathList?_strings _)
    (Action.get >>= fun c ↦ pure c.files.paths)
  exact ⟨congrArg (Answer.ofResult .files) hresult, hnext⟩

theorem Answering.diagnostics (h : Answering s t .diagnostics next i) :
    let o := (Compilation.reports s.world t.filter t.settings.context).run t.compilation
    (∀ l, o.result = .ok l → ∀ r ∈ l, r.Fits) →
      (Command.diagnostics.run s i).1 = .ofResult .reports (o.result.mapError .checker) ∧
        next o.state (Command.diagnostics.run s i).2 := by
  intro o hfits
  obtain ⟨hresult, hnext⟩ := h.ask
    (fun t ↦ Compilation.reports s.world t.filter t.settings.context)
    (fun l ↦ .arr (l.map Report.toJson)) (Json.list? Report.ofJson?) id rfl
    (fun l hl ↦ Report.list?_toJson (hfits l hl))
    ((Compilation.reports s.world i.filter i.context).mapError .checker)
  rw [Command.run, run_diagnostics]
  refine ⟨(congrArg (Answer.ofResult .reports) hresult).trans ?_, hnext⟩
  cases hreports : o.result with
  | ok l => rfl
  | error e => exact congrArg Answer.failed (Compilation.isMissingOutput_reports hreports)

end Answering

/-- An instance with a checker that has handled requests, beside one without: the
checker holds the compilation that the other one holds. -/
structure Lockstep (s : Surroundings) (home : WorkerHome) (settings : CheckerSettings)
    (requests : List Request) (here forked : Instance) : Prop where
  alone : here.checker = none
  remote : Remote s home requests ⟨here.compilation, settings, here.filter⟩ forked
  transpileOnly : settings.transpileOnly = here.config.transpileOnly
  context : settings.context = here.context

namespace Lockstep

variable {s : Surroundings} {home : WorkerHome} {settings : CheckerSettings}
  {requests : List Request} {here forked : Instance} {file : Path} {text : String}

theorem compile (h : Lockstep s home settings requests here forked)
    (hworld : s.workers home = s.world) (hfile : file.fileName?.isSome)
    (hr : Session.Sendable s.world requests (.emitFile file text))
    (small : requests.length + 1 < UInt64.size) :
    ((Command.compile file text).run s forked).1 = ((Command.compile file text).run s here).1 ∧
      Lockstep s home settings (requests ++ [.emitFile file text])
        ((Command.compile file text).run s here).2 ((Command.compile file text).run s forked).2 := by
  obtain ⟨hresult, hstate⟩ := run_compile_here s file text h.alone
  obtain ⟨hresult', hnext⟩ := (h.remote.answering hworld hr small).compile hfile
  simp only [h.transpileOnly] at hresult' hnext
  rw [Command.run, Command.run]
  simp only [hresult, hresult', hstate]
  refine ⟨?_, h.alone, hnext, h.transpileOnly, h.context⟩
  cases ((Compilation.compile s.world file text here.config.transpileOnly).run
    here.compilation).result with
  | ok m => rfl
  | error e => exact congrArg Answer.failed (CompileError.isMissingOutput_sent e)

theorem register (h : Lockstep s home settings requests here forked)
    (hworld : s.workers home = s.world)
    (hr : Session.Sendable s.world requests (.registerFile file text))
    (small : requests.length + 1 < UInt64.size) :
    ((Command.register file text).run s forked).1 = ((Command.register file text).run s here).1 ∧
      Lockstep s home settings (requests ++ [.registerFile file text])
        ((Command.register file text).run s here).2
        ((Command.register file text).run s forked).2 := by
  obtain ⟨hresult, hstate⟩ := run_register_here s file text h.alone
  obtain ⟨hresult', hnext⟩ := (h.remote.answering hworld hr small).register
  rw [Command.run, Command.run]
  simp only [hresult, hresult', hstate]
  refine ⟨?_, h.alone, hnext, h.transpileOnly, h.context⟩
  cases ((Compilation.register s.world file text).run here.compilation).result with
  | ok deps => rfl
  | error e => exact congrArg Answer.failed (CompileError.isMissingOutput_sent e)

theorem knownFiles (h : Lockstep s home settings requests here forked)
    (hworld : s.workers home = s.world) (hr : Session.Sendable s.world requests .files)
    (small : requests.length + 1 < UInt64.size) :
    (Command.knownFiles.run s forked).1 = (Command.knownFiles.run s here).1 ∧
      Lockstep s home settings (requests ++ [.files])
        (Command.knownFiles.run s here).2 (Command.knownFiles.run s forked).2 := by
  obtain ⟨hanswer, hnext⟩ := (h.remote.answering hworld hr small).knownFiles
  have hhere : Command.knownFiles.run s here = (.files here.compilation.files.paths, here) := by
    rw [Command.run, Instance.knownFiles, run_perform_here h.alone]
    rfl
  rw [hhere]
  exact ⟨hanswer, h.alone, hnext, h.transpileOnly, h.context⟩

theorem diagnostics (h : Lockstep s home settings requests here forked)
    (hworld : s.workers home = s.world) (hr : Session.Sendable s.world requests .diagnostics)
    (small : requests.length + 1 < UInt64.size)
    (hfits : (Command.diagnostics.run s here).1.Fits) :
    (Command.diagnostics.run s forked).1 = (Command.diagnostics.run s here).1 ∧
      Lockstep s home settings (requests ++ [.diagnostics])
        (Command.diagnostics.run s here).2 (Command.diagnostics.run s forked).2 := by
  rw [run_diagnostics_here h.alone] at hfits ⊢
  obtain ⟨hanswer, hnext⟩ := (h.remote.answering hworld hr small).diagnostics fun l hl ↦ by
    rw [← h.context, hl] at hfits
    exact hfits
  simp only [h.context] at hanswer hnext
  exact ⟨hanswer, h.alone, hnext, h.transpileOnly, h.context⟩

theorem portable_payload (h : Lockstep s home settings requests here forked) {k : Command}
    (hfits : (k.run s here).1.Fits) {payload : Json}
    (hok : ((Session.handle s.world k.request).run (Session.served s.world requests)).result =
      .ok payload) : payload.Portable (Json.maxDepth - 1) := by
  have hdepth : Json.maxDepth - 1 = 122 + 4 := rfl
  rw [hdepth]
  cases k with
  | compile file text =>
    obtain ⟨m, -, rfl⟩ := h.remote.payload
      (fun t ↦ (Compilation.compile s.world file text t.settings.transpileOnly).mapError
        CheckError.compile)
      (fun m ↦ (EmitReply.ofCompiled file m.output m.deps).toJson) rfl hok
    exact EmitReply.portable_toJson _
  | register file text =>
    obtain ⟨deps, -, rfl⟩ := h.remote.payload
      (fun _ ↦ (Compilation.register s.world file text).mapError CheckError.compile)
      FileDeps.toJson rfl hok
    exact FileDeps.portable_toJson _
  | knownFiles =>
    obtain ⟨c, -, rfl⟩ := h.remote.payload (fun _ ↦ Action.get)
      (fun c ↦ Json.strings (c.files.paths.map (·.text))) rfl hok
    exact portable_strings _
  | diagnostics =>
    obtain ⟨l, hl, rfl⟩ := h.remote.payload
      (fun t ↦ Compilation.reports s.world t.filter t.settings.context)
      (fun l ↦ .arr (l.map Report.toJson)) rfl hok
    rw [run_diagnostics_here h.alone, ← h.context, hl] at hfits
    have hreports : ∀ r ∈ l, r.Fits := hfits
    simpa using fun r hr ↦ Report.portable_toJson (hreports r hr)

/-- Both instances answer a command alike, when the frames of its request and of
the response are within the limit. -/
theorem run (h : Lockstep s home settings requests here forked) (hworld : s.workers home = s.world)
    {k : Command} (hnamed : k.Named) (hfits : (k.run s here).1.Fits)
    (small : requests.length + 1 < UInt64.size)
    (hframes : Session.FramesFit s.world (requests ++ [k.request])) :
    (k.run s forked).1 = (k.run s here).1 ∧
      Lockstep s home settings (requests ++ [k.request]) (k.run s here).2 (k.run s forked).2 := by
  have hpayload : k.request.payload.Portable (Json.maxDepth - 1) := by
    refine Request.portable_payload 125 fun setup hsetup ↦ ?_
    cases k <;> cases hsetup
  have hr : Session.Sendable s.world requests k.request := by
    refine ⟨?_, ⟨Request.portable_envelope small hpayload, hframes.request⟩,
      ⟨Response.portable_ofResult small fun payload ↦ h.portable_payload hfits,
        hframes.response⟩⟩
    cases k <;> trivial
  cases k with
  | compile file text => exact h.compile hworld hnamed hr small
  | register file text => exact h.register hworld hr small
  | knownFiles => exact h.knownFiles hworld hr small
  | diagnostics => exact h.diagnostics hworld hr small hfits

theorem answers_eq (h : Lockstep s home settings requests here forked)
    (hworld : s.workers home = s.world) {commands : List Command}
    (hnamed : ∀ k ∈ commands, k.Named) (hfits : ∀ a ∈ here.answers s commands, a.Fits)
    (small : requests.length + commands.length < UInt64.size)
    (hframes : Session.FramesFit s.world (requests ++ commands.map Command.request)) :
    forked.answers s commands = here.answers s commands := by
  induction commands generalizing requests here forked with
  | nil => rfl
  | cons k rest ih =>
    rw [List.length_cons] at small
    have hsplit : requests ++ (k :: rest).map Command.request =
        (requests ++ [k.request]) ++ rest.map Command.request := by simp
    rw [hsplit] at hframes
    obtain ⟨hk, hrest⟩ := List.forall_mem_cons.1 hnamed
    obtain ⟨hfit, hfits⟩ := List.forall_mem_cons.1 hfits
    obtain ⟨hanswer, hnext⟩ := h.run hworld hk hfit (by omega) hframes.left
    rw [answers, answers, hanswer, ih hnext hrest hfits ?_ hframes]
    simp only [List.length_append, List.length_singleton]
    omega

end Lockstep

end Instance

namespace Instance

/-- The wire carries what a run asks of a checker, and what it is answered. -/
structure Carried (s : Surroundings) (config : LoaderConfig) (bundler : Json) (here : Instance)
    (commands : List Command) : Prop where
  compilerOptions : (Json.obj here.compilation.options).Portable (Json.maxDepth - 2)
  bundlerOptions : bundler.Portable (Json.maxDepth - 2)
  codes : ∀ code ∈ config.ignored, code < UInt32.size
  reports : ∀ a ∈ here.answers s commands, a.Fits
  count : commands.length + 1 < UInt64.size
  frames : Session.FramesFit s.world (.init (Loader.setup s config here.compilation.options bundler) ::
    commands.map Command.request)

/-- An instance whose checker serves in this process answers every sequence of
commands as the instance without a checker does. -/
theorem forked_answers {s : Surroundings} {home : WorkerHome} {config : LoaderConfig}
    {bundler : Json} {l : Loader} {here : Instance} {commands : List Command}
    (hworld : s.workers home = s.world)
    (hlauncher : s.launcher = .supplied fun _ ↦ .ok (.serving home {}))
    (hmake : ((Loader.make s { config with forkChecker := false } bundler).run l).result =
      .ok here)
    (hnamed : ∀ k ∈ commands, k.Named) (hcarried : Carried s config bundler here commands) :
    ∃ forked, ((Loader.make s { config with forkChecker := true } bundler).run l).result =
        .ok forked ∧
      here.isForked = false ∧ forked.isForked = true ∧
      forked.answers s commands = here.answers s commands := by
  obtain ⟨project, filter, hproject, hfilter, rfl⟩ := Loader.make_here rfl hmake
  have hsetup := Setup.portable_toJson 123
    (s := Loader.setup s config project.compilerOptions bundler) hcarried.compilerOptions
    hcarried.bundlerOptions hcarried.codes
  have hframes : Session.FramesFit s.world
      ([.init (Loader.setup s config project.compilerOptions bundler)] ++
        commands.map Command.request) := hcarried.frames
  have hconnector : s.launcher.connector { config with forkChecker := true }
      (config.context.getD s.workingDirectory) = .ok fun _ ↦ .ok (.serving home {}) := by
    rw [hlauncher]
    rfl
  obtain ⟨client, hstep, hclient, -⟩ := Loader.run_startChecker (l := l) hconnector rfl
    (hworld ▸ Loader.sendable_init hcarried.codes hsetup hframes.left)
  have hfilter : Loader.filterFor? (Loader.setup s config project.compilerOptions bundler) =
      some filter := hfilter
  have hstarted := Loader.started_init s.world hfilter
  rw [hfilter] at hclient
  have hfilter' : Loader.filterFor? (Loader.setup s { config with forkChecker := true }
      project.compilerOptions bundler) = some filter := hfilter
  have hforked : ((Loader.make s { config with forkChecker := true } bundler).run l).result =
      .ok (Loader.assemble s { config with forkChecker := true } l.made project.compilerOptions
        filter (some client)) := by
    have hproject : LoaderConfig.project { config with forkChecker := true } l.disk
        (config.context.getD s.workingDirectory) = .ok project := hproject
    rw [(Loader.run_make s bundler hproject).1,
      (Loader.checkerFor_forked rfl _).1, hfilter']
    exact congrArg (fun r ↦ (r.map some).bind fun checker ↦ .ok (Loader.assemble s
      { config with forkChecker := true } l.made project.compilerOptions filter checker)) hclient
  refine ⟨_, hforked, rfl, rfl, ?_⟩
  have hlockstep : Lockstep s home
      (Loader.setup s config project.compilerOptions bundler).settings
      [.init (Loader.setup s config project.compilerOptions bundler)]
      (Loader.assemble s { config with forkChecker := false } l.made project.compilerOptions
        filter none)
      (Loader.assemble s { config with forkChecker := true } l.made project.compilerOptions
        filter (some client)) :=
    ⟨rfl, ⟨⟨client, rfl, hstep⟩, hstarted⟩, rfl, rfl⟩
  have hcount := hcarried.count
  refine hlockstep.answers_eq hworld hnamed hcarried.reports ?_ hframes
  rw [List.length_singleton]
  omega

def twoCommands : List Command := [.compile ⟨"/a.ts"⟩ "a", .register ⟨"/b.ts"⟩ "b"]

theorem compile_plain {file : Path} (hpath : file.normalize = file) (text : String)
    {c : Compilation} (h : c.Unlinked) :
    ((Compilation.compile .plain file text true).run c).result =
        .ok ⟨{ text, sourceMap := some file.text, fast := true }, {}⟩ ∧
      ((Compilation.compile .plain file text true).run c).state.Unlinked :=
  h.compile (w := .plain) rfl (t := { text, sourceMap := some file.text }) (by rw [hpath]; rfl)

theorem run_compile_plain {i : Instance} (hcase : i.checker = none)
    (hmode : i.config.transpileOnly = true) (hunlinked : i.compilation.Unlinked) {file : Path}
    (hpath : file.normalize = file) (text : String) :
    ∃ i', Command.run .plain i (.compile file text) =
        (.module text (some file.text) true {}, i') ∧ i'.checker = none ∧
      i'.compilation.Unlinked := by
  have hworld : Surroundings.plain.world = .plain := rfl
  obtain ⟨hcompiled, hnext⟩ := compile_plain hpath text hunlinked
  obtain ⟨hresult, hstate⟩ := run_compile_here .plain file text hcase
  rw [hmode, hworld] at hresult hstate
  rw [hcompiled] at hresult
  refine ⟨_, ?_, congrArg Instance.checker hstate |>.trans hcase, ?_⟩
  · rw [Command.run, hresult]
    rfl
  · rw [hstate]
    exact hnext

theorem answers_plain {i : Instance} (hcase : i.checker = none)
    (hmode : i.config.transpileOnly = true) (hunlinked : i.compilation.Unlinked) :
    i.answers .plain twoCommands = [.module "a" (some "/a.ts") true {}, .registered {}] := by
  have hworld : Surroundings.plain.world = .plain := rfl
  have hscan : World.plain.compiler.scan "b" = {} := rfl
  have hpath : (⟨"/a.ts"⟩ : Path).normalize = ⟨"/a.ts"⟩ := by decide +kernel
  obtain ⟨i', hfirst, hcase', hunlinked'⟩ := run_compile_plain hcase hmode hunlinked hpath "a"
  obtain ⟨hregistered, -⟩ := hunlinked'.register ⟨"/b.ts"⟩ hscan
  obtain ⟨hsecond, -⟩ := run_register_here .plain ⟨"/b.ts"⟩ "b" hcase'
  rw [hworld, hregistered] at hsecond
  rw [twoCommands, answers, hfirst, answers, Command.run, hsecond]
  rfl

theorem framesFit_plain : Session.FramesFit .plain
    (.init (Loader.setup .plain { transpileOnly := true } [] .null) ::
      twoCommands.map Command.request) where
  sent := by
    have hsent : ∀ p ∈ numbered (.init (Loader.setup .plain { transpileOnly := true } []
          .null) :: twoCommands.map Command.request),
        4 * (p.2.envelope p.1).toJson.chars.length ≤ Frame.maxBytes := by decide +kernel
    exact fun p hp ↦ Json.fits_of_length (hsent p hp)
  answered := by
    have hscan : World.plain.compiler.scan "b" = {} := rfl
    have hfilter : Loader.filterFor? (Loader.setup .plain { transpileOnly := true } [] .null) =
        some { context := ⟨"/"⟩ } := rfl
    have hstarted := Loader.started_init .plain hfilter
    have hpath : (⟨"/a.ts"⟩ : Path).normalize = ⟨"/a.ts"⟩ := by decide +kernel
    obtain ⟨hcompiled, hnext⟩ := compile_plain hpath "a" (Compilation.unlinked_make [] .sensitive)
    obtain ⟨hregistered, -⟩ := hnext.register ⟨"/b.ts"⟩ hscan
    obtain ⟨hfirst, hstarted⟩ := Session.run_handle_of
      (fun t ↦ (Compilation.compile .plain ⟨"/a.ts"⟩ "a" t.settings.transpileOnly).mapError
        CheckError.compile)
      (fun m ↦ (EmitReply.ofCompiled ⟨"/a.ts"⟩ m.output m.deps).toJson) hstarted
      (r := .emitFile ⟨"/a.ts"⟩ "a") rfl
    rw [Action.run_mapError] at hfirst hstarted
    obtain ⟨hsecond, -⟩ := Session.run_handle_of
      (fun _ ↦ (Compilation.register .plain ⟨"/b.ts"⟩ "b").mapError CheckError.compile)
      FileDeps.toJson hstarted (r := .registerFile ⟨"/b.ts"⟩ "b") rfl
    have hcompiled := congrArg (Except.mapError CheckError.compile) hcompiled
    have hregistered := congrArg (Except.mapError CheckError.compile) hregistered
    rw [Action.run_mapError] at hsecond
    have hfits (n : Nat) {x : Except CheckError Json} {payload : Json} (hx : x = .ok payload)
        (h : 4 * (Response.ok n payload).toJson.chars.length ≤ Frame.maxBytes) :
        (Response.ofResult n x).toJson.text.utf8ByteSize ≤ Frame.maxBytes := by
      rw [hx]
      exact Json.fits_of_length h
    refine List.forall_mem_cons.2 ⟨?_, List.forall_mem_cons.2 ⟨?_, List.forall_mem_singleton.2 ?_⟩⟩
    · exact hfits 1 (Loader.result_init .plain _) (by decide +kernel)
    · exact hfits 2 (hfirst.trans (congrArg _ hcompiled)) (by decide +kernel)
    · exact hfits 3 (hsecond.trans (congrArg _ hregistered)) (by decide +kernel)

theorem forked_answers_plain :
    let s := Surroundings.plain
    let config : LoaderConfig := { transpileOnly := true }
    let make (forkChecker : Bool) :=
      ((Loader.make s { config with forkChecker } .null).run { disk := {} }).result
    ∃ here forked, make false = .ok here ∧ make true = .ok forked ∧
      here.answers s twoCommands = [.module "a" (some "/a.ts") true {}, .registered {}] ∧
      forked.answers s twoCommands = here.answers s twoCommands := by
  intro s config make
  let l : Loader := { disk := {} }
  have hproject : LoaderConfig.project { config with forkChecker := false } l.disk ⟨"/"⟩ =
      .ok ⟨[], none⟩ := by
    rw [LoaderConfig.project, if_neg (by decide +kernel)]
    rfl
  obtain ⟨hmake, -⟩ := Loader.run_make_here s .null rfl hproject rfl
  generalize hhere : Loader.assemble s _ _ _ _ none = here at hmake
  have hcompilation : here.compilation = .make [] .sensitive := by rw [← hhere]; rfl
  have hanswers : here.answers s twoCommands =
      [.module "a" (some "/a.ts") true {}, .registered {}] :=
    answers_plain (by rw [← hhere]; rfl) (by rw [← hhere]; rfl)
      (hcompilation ▸ Compilation.unlinked_make [] .sensitive)
  have hoptions : here.compilation.options = [] := by rw [hcompilation]; rfl
  have hcarried : Carried s config .null here twoCommands := {
    compilerOptions := by
      rw [hoptions]
      exact Json.Portable.obj_iff.2 (by simp)
    bundlerOptions := .null
    codes := by simp [config]
    reports := by
      rw [hanswers]
      simp [Answer.Fits]
    count := by decide
    frames := by
      rw [hoptions]
      exact framesFit_plain }
  have hworld : s.workers .within = s.world := rfl
  have hlauncher : s.launcher = .supplied fun _ ↦ .ok (.serving .within {}) := rfl
  obtain ⟨forked, hforked, -, -, hsame⟩ :=
    forked_answers hworld hlauncher hmake (by decide +kernel) hcarried
  exact ⟨here, forked, hmake, hforked, hanswers, hsame⟩

/-- A setup that the worker cannot read is waited for in vain. -/
theorem setUp_unread {s : Surroundings} {home : WorkerHome} {setup : Setup} {client : Client}
    (h : client.Rests home {}) (hretired : client.retired = []) (hnext : client.nextSeq = 1)
    (hfits : ((Request.init setup).envelope 1).toJson.text.utf8ByteSize ≤ Frame.maxBytes)
    {depth : Nat} (hportable : ((Request.init setup).envelope 1).toJson.Portable depth)
    (hdeep : ¬setup.toJson.Portable (Json.maxDepth - 1)) :
    ((Loader.setUp s setup).run client).result = .error .exited := by
  obtain ⟨hrefused, hunread⟩ := RequestEnvelope.unread_of_deep hportable hdeep
  have hrests := (h.settle (w := s.workers)).withSetup setup
  generalize hc : { ((Client.settle s.workers).run client).state with setup := some setup } = c
    at hrests
  have hnext : c.nextSeq = 1 := by rw [← hc]; exact hnext
  have hretired : c.retired = [] := by rw [← hc]; exact hretired
  rw [← hnext] at hfits hunread hrefused
  have hreply := hrests.reply?_unread (w := s.workers) hretired (by rw [hnext]; decide) hfits
    hunread hrefused
  obtain ⟨hresult, -⟩ := Loader.run_setUp_eq s setup client hc
  have hawait : ((Client.await ⟨c.nextSeq, Client.done?⟩).run
      (c.asked s.workers (.init setup))).result = Promise.result ⟨c.nextSeq, Client.done?⟩
        (((c.asked s.workers (.init setup)).reply? c.nextSeq).getD (.error .exited)) := rfl
  rw [hresult, hawait, hreply]
  rfl

/-- Options that stay within the limit by themselves, and not in the message with the setup. -/
def deepConfig : LoaderConfig :=
  { transpileOnly := true, compilerOptions := [("paths", Json.nest 126)] }

theorem portable_deepConfig {depth : Nat} (h : 126 ≤ depth) :
    (Json.obj deepConfig.compilerOptions).Portable (depth + 1) :=
  .obj (List.nodup_singleton _) (List.forall_mem_singleton.2 (Json.portable_nest.2 h))

theorem project_deepConfig (forkChecker : Bool) :
    LoaderConfig.project { deepConfig with forkChecker } {} ⟨"/"⟩ =
      .ok ⟨deepConfig.compilerOptions, none⟩ := by
  have hnone : ({} : Disk).isFile ((⟨"/"⟩ : Path).join ⟨deepConfig.projectFile⟩) = false := by
    decide +kernel
  exact if_neg (ne_true_of_eq_false hnone)

theorem not_portable_deepConfig (s : Surroundings) (config : LoaderConfig) (bundler : Json) :
    ¬(Loader.setup s config deepConfig.compilerOptions bundler).toJson.Portable
      (Json.maxDepth - 1) := by
  intro h
  have hoptions : (Json.obj deepConfig.compilerOptions).Portable (126 - 1) :=
    Json.Portable.member (m := ("compilerConfig", .obj deepConfig.compilerOptions)) h
      (by simp [Loader.setup])
  have hnest : (Json.nest 126).Portable (125 - 1) :=
    Json.Portable.member (m := ("paths", Json.nest 126)) hoptions List.mem_cons_self
  exact absurd (Json.portable_nest.1 hnest) (by decide)

theorem answers_deepConfig {file : Path} (hfile : file.normalize = file) :
    ∃ here, ((Loader.make .plain { deepConfig with forkChecker := false } .null).run
        { disk := {} }).result = .ok here ∧
      here.answers .plain [.compile file "a"] = [.module "a" (some file.text) true {}] := by
  let config : LoaderConfig := { deepConfig with forkChecker := false }
  have hlocal : config.forkChecker = false := rfl
  have hfilter : Loader.filterFor? (Loader.setup .plain config deepConfig.compilerOptions .null) =
      some { context := ⟨"/"⟩ } := rfl
  obtain ⟨hmake, -⟩ := Loader.run_make_here (l := { disk := {} }) .plain .null hlocal
    (project_deepConfig false) hfilter
  generalize hhere : Loader.assemble _ _ _ _ _ none = here at hmake
  have hcompilation : here.compilation = .make deepConfig.compilerOptions .sensitive := by
    rw [← hhere]
    rfl
  obtain ⟨_, hcompiled, -⟩ := run_compile_plain (by rw [← hhere]; rfl) (by rw [← hhere]; rfl)
    (hcompilation ▸ Compilation.unlinked_make deepConfig.compilerOptions .sensitive) hfile "a"
  refine ⟨here, hmake, ?_⟩
  rw [answers, hcompiled]
  rfl

theorem make_deepConfig_ne_ok (forked : Instance) :
    ((Loader.make .plain { deepConfig with forkChecker := true } .null).run
      { disk := {} }).result ≠ .ok forked := by
  intro hforked
  let s := Surroundings.plain
  let l : Loader := { disk := {} }
  let config : LoaderConfig := { deepConfig with forkChecker := true }
  let setup := Loader.setup s config deepConfig.compilerOptions .null
  let connector : Connector := fun _ ↦ .ok (.serving .within {})
  have hworker : connector l.starts = .ok (.serving .within {}) := rfl
  obtain ⟨client, hclient, hretired⟩ : ∃ client : Client,
      Client.start connector config.sendPolicy l.starts = .ok client ∧ client.retired = [] :=
    ⟨_, rfl, rfl⟩
  obtain ⟨hrests, hnext⟩ := Client.rests_start hworker hclient
  have hsetup : setup.toJson.Portable 128 :=
    Setup.portable_toJson 125 (portable_deepConfig (Nat.le_refl 126)) .null fun _ hc ↦ by cases hc
  have hfits : 4 * ((Request.init setup).envelope 1).toJson.chars.length ≤ Frame.maxBytes := by
    decide +kernel
  have hunread := setUp_unread (s := s) hrests hretired hnext (Json.fits_of_length hfits)
    (Request.portable_envelope (by decide) hsetup) (not_portable_deepConfig s config .null)
  have hconnector : s.launcher.connector config (config.context.getD s.workingDirectory) =
    .ok connector := rfl
  have hproject : config.project l.disk (config.context.getD s.workingDirectory) =
    .ok ⟨deepConfig.compilerOptions, none⟩ := project_deepConfig true
  obtain ⟨hstart, -⟩ := Loader.run_startChecker_of setup hconnector hclient
  have hmake := (Loader.run_make s .null hproject).1
  rw [(Loader.checkerFor_forked rfl _).1, hstart, hunread] at hmake
  cases hmake.symm.trans hforked

/-- Without a checker there is an instance of `deepConfig`, which compiles files of any name.
With a checker there is none, nor is there a message about a file whose path is no text. -/
theorem forked_answers_fail :
    let s := Surroundings.plain
    let make (forkChecker : Bool) :=
      ((Loader.make s { deepConfig with forkChecker } .null).run { disk := {} }).result
    let unwritten := RawPath.stray 0xFF
    (Json.obj deepConfig.compilerOptions).Portable Json.maxDepth ∧
      s.launcher = .supplied (fun _ ↦ .ok (.serving .within {})) ∧
      (∃ here, make false = .ok here ∧ here.answers s [.compile unwritten.spelling "a"] =
        [.module "a" (some unwritten.spelling.text) true {}]) ∧
      (∀ forked, make true ≠ .ok forked) ∧
      unwritten.envelope? (.emitFile · "a") 2 = none := by
  intro s make unwritten
  have hnormal : unwritten.spelling.normalize = unwritten.spelling := by decide +kernel
  exact ⟨portable_deepConfig (Nat.le_refl 126), rfl, answers_deepConfig hnormal,
    make_deepConfig_ne_ok, RawPath.envelope?_stray _ _⟩

end Instance

end TypedLoader
