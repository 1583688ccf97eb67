import TypedLoader.Text.Blank
import TypedLoader.Text.LowerCase

namespace TypedLoader

inductive LogFormat where
  | text
  | tree
  | json
deriving DecidableEq, Inhabited

namespace LogFormat

def name : LogFormat → String
  | text => "Text"
  | tree => "Tree"
  | json => "Json"

def ofName (s : String) : LogFormat :=
  match String.ofList (Text.lowerCase (Text.trim s.toList)) with
  | "tree" => tree
  | "json" => json
  | _ => text

end LogFormat

structure Logging where
  installed : Bool := false

def Logging.variables : List String := ["TSZ_LOG", "RUST_LOG"]

/-- Sets logging up if one of the variables is set; it is set up only once. -/
def Logging.install (l : Logging) (environment : List (String × String)) : Bool × Logging :=
  if variables.any (fun v ↦ (environment.lookup v).isSome) && !l.installed then
    (true, ⟨true⟩)
  else (false, l)

end TypedLoader
