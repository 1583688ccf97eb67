import TypedLoader.Checker.Worker

namespace TypedLoader

abbrev Connector := Nat → Except CheckError Worker

structure WorkerCommand where
  program : Path
  arguments : List String := []
  directory : Option Path := none
deriving DecidableEq, Inhabited

namespace WorkerCommand

def text (c : WorkerCommand) : String := " ".intercalate (c.program.text :: c.arguments)

/-- Runs a command anew for each start; `run` tells what becomes of a command
that can be run. -/
def connector (c : WorkerCommand) (run : WorkerCommand → Option Worker) : Connector := fun _ ↦
  match run c with
  | some worker => .ok worker
  | none => .error (.notStarted c.text)

end WorkerCommand

end TypedLoader
