import Std.Data.ExtTreeMap
import TypedLoader.Config.Project
import TypedLoader.Loader.BuildContext
import TypedLoader.Loader.Instance

namespace TypedLoader

abbrev Instances := Std.ExtTreeMap String Instance

/-- The instances of all builds. A tree of builds shares one instance per name, which the first
request that names it makes. -/
structure Loader where
  disk : Disk
  trees : Std.ExtTreeMap Nat Instances := ∅
  made : Nat := 0
  starts : Nat := 0

namespace Loader

variable {α : Type}

abbrev Act (α : Type) := Action Loader LoadError α

def instancesOf (l : Loader) (ctx : BuildContext) : Instances := l.trees[ctx.tree]?.getD ∅

def instance? (l : Loader) (ctx : BuildContext) (name : String) : Option Instance :=
  (l.instancesOf ctx)[name]?

def instances (l : Loader) (ctx : BuildContext) : List Instance :=
  (l.instancesOf ctx).toList.map (·.2)

def put (l : Loader) (ctx : BuildContext) (i : Instance) : Loader :=
  { l with trees := l.trees.insert ctx.tree ((l.instancesOf ctx).insert i.name i) }

/-- Drops an instance; the next request that names it makes a new one. -/
def removeInstance (l : Loader) (ctx : BuildContext) (name : String) :
    Option Instance × Loader :=
  (l.instance? ctx name,
    { l with trees := l.trees.insert ctx.tree ((l.instancesOf ctx).erase name) })

def within {ε : Type} (ctx : BuildContext) (i : Instance) (a : Action Instance ε α) :
    Action Loader ε α :=
  a.within (fun l ↦ (l.instance? ctx i.name).getD i) fun i l ↦ l.put ctx i

def countStart : Act Nat := Action.update fun l ↦ (l.starts, { l with starts := l.starts + 1 })

def setUp (s : Surroundings) (setup : Setup) : Client.Act Unit := do
  Client.settle s.workers
  Client.await (← Client.init s.workers setup)

def startChecker (s : Surroundings) (config : LoaderConfig) (context : Path) (setup : Setup) :
    Act Client := do
  let connector ← Action.ofExcept ((s.launcher.connector config context).mapError .config)
  let n ← countStart
  let client ← Action.ofExcept ((Client.start connector config.sendPolicy n).mapError .checker)
  Action.execOn ((setUp s setup).mapError .checker) client

/-- Makes an instance; `bundler` holds the options the loader was registered
with. -/
def make (s : Surroundings) (config : LoaderConfig) (bundler : Json) : Act Instance := do
  let context := config.context.getD s.workingDirectory
  let l ← Action.get
  let project ← Action.ofExcept ((config.project l.disk context).mapError .config)
  let options := project.compilerOptions
  let case := config.case.getD s.world.defaultCase
  let compiler := s.world.compiler.info
  let checker ←
    if config.forkChecker then do
      let settings := { config.checkerSettings context with case := some case }
      let client ← startChecker s config context ⟨compiler, settings, options, bundler⟩
      pure (some client)
    else pure none
  match DiagnosticFilter.make? (Json.Object.flag options "skipLibCheck") config.reported
      config.ignored context with
  | none => Action.fail (.checker .badPattern)
  | some filter => pure {
      serial := l.made
      config, context
      identifier := Instance.identifierOf compiler options
      compilation := Compilation.make options case
      checker
      cache := if config.useCache then some ⟨context.join config.cacheDirectory⟩ else none
      filter
      debouncer := { window := config.debounceMs } }

/-- The instance that a configuration names, made if it is not there yet. -/
def ensure (s : Surroundings) (ctx : BuildContext) (config : LoaderConfig) (bundler : Json) :
    Act Instance := do
  let l ← Action.get
  match l.instance? ctx config.instanceName with
  | some i => pure i
  | none => do
    let i ← make s config bundler
    Action.modify fun l ↦ { l.put ctx i with made := l.made + 1 }
    pure i

def resetChecker (s : Surroundings) (ctx : BuildContext) (i : Instance) : Act Unit :=
  if i.isForked then do
    let n ← countStart
    within ctx i (Instance.resetChecker s n)
  else pure ()

end Loader

end TypedLoader
