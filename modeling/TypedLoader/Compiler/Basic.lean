import TypedLoader.Json.Basic
import TypedLoader.Diagnostic.Basic
import TypedLoader.Path.Basic

namespace TypedLoader

structure CompilerInfo where
  name : String
  version : String
deriving DecidableEq, Inhabited

structure References where
  imports : List String := []
  paths : List String := []
  types : List String := []
deriving DecidableEq, Inhabited

structure ResolvedModule where
  file : Path
  isExternal : Bool := false
deriving DecidableEq, Inhabited

structure ResolvedTypes where
  file : Path
  primary : Bool := true
deriving DecidableEq, Inhabited

structure OutputFile where
  name : Path
  text : String
  byteOrderMark : Bool := false
deriving DecidableEq, Inhabited

structure EmitOutput where
  files : List OutputFile := []
  skipped : Bool := false
deriving DecidableEq, Inhabited

namespace EmitOutput

def scriptEndings : List String := [".js", ".jsx", ".mjs", ".cjs"]

def script? (o : EmitOutput) : Option OutputFile :=
  o.files.find? fun f ↦ scriptEndings.any fun ending ↦ f.name.text.endsWith ending

def sourceMap? (o : EmitOutput) : Option OutputFile :=
  o.files.find? fun f ↦ f.name.text.endsWith ".map"

end EmitOutput

structure Compiled where
  text : String
  sourceMap : Option String := none
  fast : Bool := false
  diagnostics : List Diagnostic := []
deriving Inhabited

structure Transpiled where
  text : String
  sourceMap : Option String := none
  diagnostics : List Diagnostic := []
deriving Inhabited

structure Host where
  /-- Moves when files come, go or change their names. -/
  projectVersion : Nat
  fileNames : List Path
  version : Path → Option Nat
  snapshot : Path → Option String
  options : Json.Object

structure Program where
  sourceFiles : List Path
  contains : Path → Bool
  emit : Path → Except String EmitOutput
  optionsDiagnostics : List Diagnostic
  globalDiagnostics : List Diagnostic
  syntacticDiagnostics : Path → List Diagnostic
  semanticDiagnostics : Path → List Diagnostic

/-- Errors are texts of the compiler. A name that it does not find has no
resolution, which is no error. -/
structure Compiler where
  info : CompilerInfo
  scan : String → References
  resolveModule : String → Path → Json.Object → Except String (Option ResolvedModule)
  resolveTypes : String → Path → Json.Object → Except String (Option ResolvedTypes)
  build : Host → Except String Program
  transpile : String → Path → Json.Object → Except String Transpiled

end TypedLoader
