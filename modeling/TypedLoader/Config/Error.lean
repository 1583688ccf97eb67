import TypedLoader.Json.Printer
import TypedLoader.Path.Basic

namespace TypedLoader

inductive ConfigError where
  | truncatedEscape (component : String)
  | badEscape (digits : String)
  | notText
  | badQuery
  | listAndValue (key : String)
  | notAnObject (options : Json)
  | badOptions
  | badProject
  | badProjectFile (file : Path)
  | unreadableProject (file : Path)
  | extendsCycle (file : Path)
  | noDirectory
  | noBase (name : String) (file : Path)
  | noCheckerCommand
  | noCompiler (reason : String)
deriving Inhabited

def ConfigError.badProjectText : String := "failed to parse tsconfig JSON"

def ConfigError.message : ConfigError → String
  | truncatedEscape component => "truncated escape in query component '" ++ component ++ "'"
  | badEscape digits => "invalid escape '%" ++ digits ++ "' in query component"
  | notText => "query component is not UTF-8"
  | badQuery => "invalid JSON loader query"
  | listAndValue key => "query key '" ++ key ++ "' used both as a list and a value"
  | notAnObject options => "loader options must be an object, got " ++ options.text
  | badOptions => "invalid loader options"
  | badProject => badProjectText
  | badProjectFile file =>
    "failed to parse tsconfig: " ++ file.text ++ ": " ++ badProjectText
  | unreadableProject file => "failed to read tsconfig: " ++ file.text
  | extendsCycle file => "tsconfig extends cycle detected at " ++ file.text
  | noDirectory => "tsconfig has no parent directory"
  | noBase name file => "cannot find tsconfig '" ++ name ++ "' extended by " ++ file.text
  | noCheckerCommand => "forkChecker requires checkerCommand, the checker worker binary to run"
  | noCompiler reason => reason

end TypedLoader
