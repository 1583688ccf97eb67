import TypedLoader.Checker.Error
import TypedLoader.Config.Error

namespace TypedLoader

inductive LoadError where
  | config (e : ConfigError)
  | compile (e : CompileError)
  | checker (e : CheckError)
  | bail (file : Option Path) (reason : String)
deriving Inhabited

namespace LoadError

def message : LoadError → String
  | config e => e.message
  | compile e => e.message
  | checker e => e.message
  | bail _ reason => "bail: " ++ reason

def isMissingOutput : LoadError → Bool
  | compile e => e.isMissingOutput
  | checker e => e.isMissingOutput
  | _ => false

end LoadError

end TypedLoader
