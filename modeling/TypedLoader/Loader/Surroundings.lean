import TypedLoader.Checker.Launch
import TypedLoader.Config.Loader

namespace TypedLoader

inductive Launcher where
  | supplied (connector : Connector)
  | command (run : WorkerCommand → Option Worker)

def Launcher.connector (l : Launcher) (config : LoaderConfig) (context : Path) :
    Except ConfigError Connector :=
  match l with
  | supplied connector => .ok connector
  | command run =>
    match config.checkerCommand with
    | none => .error .noCheckerCommand
    | some program =>
      .ok (WorkerCommand.connector ⟨program, config.checkerArguments, some context⟩ run)

structure Surroundings where
  world : World
  workers : Workers
  launcher : Launcher
  workingDirectory : Path
  now : Nat

end TypedLoader
