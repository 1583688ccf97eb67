import TypedLoader.Checker.Error
import TypedLoader.Compilation
import TypedLoader.Diagnostic.Filter
import TypedLoader.Diagnostic.Report

namespace TypedLoader

/-- The diagnostics of a program that a filter keeps: of the options, of the
whole program, and of each file that is checked. -/
def Program.diagnostics (p : Program) (f : DiagnosticFilter) : List Diagnostic :=
  let files := p.sourceFiles.filter f.checks
  let found := files.flatMap fun file ↦ p.syntacticDiagnostics file ++ p.semanticDiagnostics file
  (p.optionsDiagnostics ++ p.globalDiagnostics ++ found).filter f.keeps

namespace Compilation

def report? (c : Compilation) (coloured : Bool) (context : Path) (d : Diagnostic) :
    Option Report :=
  Report.ofDiagnostic? d ((c.get? ⟨d.file⟩).map (·.text)) context coloured

/-- The reports of the current program; one message nested too deeply and there
are none. -/
def reports (w : World) (f : DiagnosticFilter) (context : Path) :
    Action Compilation CheckError (List Report) := do
  let p ← (program w).mapError CheckError.compile
  let c ← Action.get
  match (p.diagnostics f).mapM (c.report? w.coloured context) with
  | some reports => pure reports
  | none => Action.fail .messageTooDeep

end Compilation

end TypedLoader
