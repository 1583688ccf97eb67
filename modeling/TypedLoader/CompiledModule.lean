import TypedLoader.Checker.FileDeps
import TypedLoader.Compilation

namespace TypedLoader

/-- A compiled module, and the files that it was compiled from. -/
structure CompiledModule where
  output : Compiled
  deps : FileDeps
deriving Inhabited

namespace Compilation

def register (w : World) (file : Path) (text : String) : Act FileDeps := do
  sync w file text
  let c ← Action.get
  pure (FileDeps.collect c.deps file)

def compile (w : World) (file : Path) (text : String) (transpileOnly : Bool) :
    Act CompiledModule := do
  sync w file text
  let output ← emitOrTranspile w file transpileOnly
  let c ← Action.get
  pure ⟨output, FileDeps.collect c.deps file⟩

end Compilation

end TypedLoader
