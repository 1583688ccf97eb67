import TypedLoader.Path.Basic

namespace TypedLoader

inductive ReadFailure where
  | unknown (path : Path)
  | absent
  | isDirectory
  | notDirectory
  | notText
deriving DecidableEq, Inhabited

def ReadFailure.message : ReadFailure → String
  | unknown path => "no such file: " ++ path.text
  | absent => "No such file or directory (os error 2)"
  | isDirectory => "Is a directory (os error 21)"
  | notDirectory => "Not a directory (os error 20)"
  | notText => "stream did not contain valid UTF-8"

inductive CompileError where
  | unreadable (file : Path) (cause : ReadFailure)
  /-- The compiler failed to look a name up; a name it does not find is no
  failure. -/
  | unresolved (file : Path) (name : String) (reason : String)
  | noOutput (file : Path)
  | skipped (file : Path)
  | compiler (reason : String)
deriving DecidableEq, Inhabited

namespace CompileError

def kind : CompileError → String
  | unreadable .. => "FileRead"
  | unresolved .. => "Resolution"
  | noOutput _ => "EmitMissingOutput"
  | skipped _ => "EmitSkipped"
  | compiler _ => "Oracle"

def message : CompileError → String
  | unreadable file cause => "failed to read " ++ file.text ++ ": " ++ cause.message
  | unresolved file name reason =>
    "failed to resolve '" ++ name ++ "' from " ++ file.text ++ ": " ++ reason
  | noOutput file => "no output generated for " ++ file.text
  | skipped file => "emit skipped for " ++ file.text
  | compiler reason => reason

def isMissingOutput : CompileError → Bool
  | noOutput _ => true
  | skipped _ => true
  | _ => false

end CompileError

end TypedLoader
