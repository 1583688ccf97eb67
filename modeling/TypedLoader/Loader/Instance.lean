import TypedLoader.Cache.Output
import TypedLoader.Checker.Client
import TypedLoader.CompiledModule
import TypedLoader.Debouncer
import TypedLoader.Loader.Error
import TypedLoader.Loader.Surroundings

namespace TypedLoader

/-- A compilation that several modules of a build share, or a checker in its place. -/
structure Instance where
  serial : Nat
  config : LoaderConfig
  context : Path
  /-- Names the compiler, the loader and the compiler options in cache keys. -/
  identifier : String
  compilation : Compilation
  checker : Option Client
  cache : Option OutputCache
  filter : DiagnosticFilter
  debouncer : Debouncer

namespace Instance

variable {α : Type}

def name (i : Instance) : String := i.config.instanceName

def isForked (i : Instance) : Bool := i.checker.isSome

def loaderVersion : String := "0.1.0"

def identifierOf (compiler : CompilerInfo) (options : Json.Object) : String :=
  compiler.name ++ "@" ++ compiler.version ++ "|" ++ loaderVersion ++ "|" ++ (Json.obj options).text

abbrev Act (α : Type) := Action Instance LoadError α

def onCompilation {ε : Type} (a : Action Compilation ε α) : Action Instance ε α :=
  a.within Instance.compilation fun compilation i ↦ { i with compilation }

def perform (remote : Client.Act α) (here : Action Compilation LoadError α) : Act α := fun i ↦
  match i.checker with
  | none => onCompilation here i
  | some client =>
    match remote.mapError LoadError.checker client with
    | ⟨r, client, calls⟩ => ⟨r, { i with checker := some client }, calls⟩

def emitRemote (w : Workers) (file : Path) (text : String) :
    Client.Act (Option CompiledModule) := do
  let reply ← Client.await (← Client.emitFile w file text)
  pure (reply.compiled?.map fun output ↦ ⟨output, reply.deps⟩)

def compile (s : Surroundings) (file : Path) (text : String) : Act CompiledModule := do
  let i ← Action.get
  let compiled ← perform (emitRemote s.workers file text)
    (((Compilation.compile s.world file text i.config.transpileOnly).mapError .compile) >>= fun m ↦
      pure (some m))
  match compiled with
  | some m => pure m
  | none => Action.fail (.compile (.noOutput file))

def register (s : Surroundings) (file : Path) (text : String) : Act FileDeps :=
  perform (Client.registerFile s.workers file text >>= Client.await)
    ((Compilation.register s.world file text).mapError .compile)

def knownFiles (s : Surroundings) : Act (List Path) :=
  perform (Client.files s.workers >>= Client.await) do
    let c ← Action.get
    pure c.files.paths

def notify (s : Surroundings) : Act Unit :=
  Action.modify fun i ↦ { i with debouncer := i.debouncer.notify s.now }

def forward (s : Surroundings) (p : Path) : Client.Act (Promise Unit) := do
  Action.call (.read p)
  match s.world.files.read p with
  | .ok text => Client.updateFile s.workers p text true
  | .error _ => Client.removeFile s.workers p

def forwardAll (s : Surroundings) (changed : List Path) : Client.Act Unit :=
  changed.forM fun p ↦ do
    let _ ← forward s p

def refresh (s : Surroundings) (changed : List Path) : Action Compilation CompileError Unit := do
  if ← Compilation.refreshAll s.world (changed.map Path.normalize) then
    Action.modify Compilation.dropProgram

/-- Takes over changes that the host has seen, in place and in the checker. -/
def filesChanged (s : Surroundings) (changed : List Path) : Act Unit := do
  onCompilation ((refresh s changed).mapError .compile)
  perform (forwardAll s changed) (pure ())
  notify s

def diagnostics (s : Surroundings) : Act (List Report) := do
  let i ← Action.get
  perform (Client.diagnostics s.workers >>= Client.await)
    ((Compilation.reports s.world i.filter i.context).mapError .checker)

def startTime (s : Surroundings) (i : Instance) : Nat :=
  max s.now (i.debouncer.deadline.getD s.now)

def tryStart (s : Surroundings) : Act Bool :=
  Action.update fun i ↦
    let (started, debouncer) := i.debouncer.tryStart (i.startTime s)
    (started, { i with debouncer })

def finish : Act Unit :=
  Action.modify fun i ↦ { i with debouncer := i.debouncer.finish.2 }

/-- The diagnostics, unless nothing has changed since they were last computed. -/
def freshDiagnostics (s : Surroundings) : Act (Option (List Report)) := do
  if ← tryStart s then
    let found ← (diagnostics s).attempt
    finish
    match found with
    | .ok reports => pure (some reports)
    | .error e => Action.fail e
  else pure none

/-- Replaces the checker's worker by a new one, if there is a checker; `n`
numbers the start. -/
def resetChecker (s : Surroundings) (n : Nat) : Act Unit :=
  perform (Client.reset s.workers n) (pure ())

end Instance

end TypedLoader
