import TypedLoader.Diagnostic.Basic
import TypedLoader.Glob
import TypedLoader.Path.Basic

namespace TypedLoader

/-- The patterns are compared with paths relative to the context directory;
without patterns every file is reported. -/
structure DiagnosticFilter where
  skipDeclarations : Bool := false
  reported : Option (List Glob) := none
  ignored : List Nat := []
  context : Path := ⟨""⟩

namespace DiagnosticFilter

def make? (skipDeclarations : Bool) (patterns : List String) (ignored : List Nat)
    (context : Path) : Option DiagnosticFilter :=
  if patterns.isEmpty then some { skipDeclarations, reported := none, ignored, context }
  else
    (patterns.mapM Glob.ofPattern?).map fun globs ↦
      { skipDeclarations, reported := some globs, ignored, context }

def isReported (f : DiagnosticFilter) (file : Path) : Bool :=
  match f.reported with
  | none => true
  | some globs =>
    let relative := (file.relativeTo f.context).text
    globs.any (·.isMatch relative)

def checks (f : DiagnosticFilter) (file : Path) : Bool :=
  !(f.skipDeclarations && file.isDeclaration) && f.isReported file

def keeps (f : DiagnosticFilter) (d : Diagnostic) : Bool :=
  !f.ignored.contains d.code && (!d.hasFile || f.checks ⟨d.file⟩)

end DiagnosticFilter

end TypedLoader
