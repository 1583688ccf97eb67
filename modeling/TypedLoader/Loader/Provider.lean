import TypedLoader.Loader.Basic

namespace TypedLoader

abbrev Provider := LoaderConfig → Json.Object → Except String Compiler

def Provider.shared (compiler : Compiler) : Provider := fun _ _ ↦ .ok compiler

def Surroundings.withCompiler (s : Surroundings) (compiler : Compiler) : Surroundings :=
  { s with world := { s.world with compiler } }

namespace Loader

def makeFrom (provider : Provider) (s : Surroundings) (config : LoaderConfig) (bundler : Json) :
    Act Instance := do
  let l ← Action.get
  let project ← Action.ofExcept
    ((config.project l.disk (config.context.getD s.workingDirectory)).mapError .config)
  let compiler ← Action.ofExcept
    ((provider config project.compilerOptions).mapError fun reason ↦ .config (.noCompiler reason))
  make (s.withCompiler compiler) config bundler

/-- The instance that a configuration names, made if it is not there yet. -/
def ensureFrom (provider : Provider) (s : Surroundings) (ctx : BuildContext)
    (config : LoaderConfig) (bundler : Json) : Act Instance := do
  let l ← Action.get
  match l.instance? ctx config.instanceName with
  | some i => pure i
  | none => do
    let i ← makeFrom provider s config bundler
    Action.modify fun l ↦ { l.put ctx i with made := l.made + 1 }
    pure i

end Loader

end TypedLoader
