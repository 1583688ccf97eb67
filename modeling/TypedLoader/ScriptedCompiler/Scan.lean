import TypedLoader.Compiler.Basic
import TypedLoader.Text.Blank
import TypedLoader.Text.Search

namespace TypedLoader.ScriptedCompiler

def quoted? (s : List Char) : Option String :=
  match Text.trimStart s with
  | [] => none
  | mark :: rest =>
    if mark = '\x27' ∨ mark = '\x22' then (Text.cutAt? mark rest).map (String.ofList ·.1) else none

def attribute? (name : String) (s : List Char) : Option String :=
  (Text.after? (name ++ "=").toList s).bind quoted?

def scanComment (s : List Char) : References :=
  if (Text.after? "<reference".toList s).isNone then {}
  else
    match attribute? "path" s with
    | some path => { paths := [path] }
    | none => { types := (attribute? "types" s).toList }

def statementName? (line : List Char) : Option String :=
  let starts (word : String) : Bool := word.toList.isPrefixOf line
  if starts "import " || starts "export " || starts "\x7d" then
    match Text.after? " from ".toList line with
    | some rest => quoted? rest
    | none => (Text.stripStart? "import ".toList line).bind quoted?
  else none

def requireMark : List Char := "require(".toList

def requiredNames (s : List Char) : List String :=
  match h : Text.after? requireMark s with
  | none => []
  | some rest =>
    have : rest.length < s.length := by
      have := Text.length_of_after? h
      have : 0 < requireMark.length := by decide
      omega
    (quoted? rest).toList ++ requiredNames rest
termination_by s.length

def scanLine (line : List Char) : References :=
  let line := Text.trimStart line
  match Text.stripStart? "///".toList line with
  | some comment => scanComment comment
  | none =>
    if "//".toList.isPrefixOf line then {}
    else { imports := (statementName? line).toList ++ requiredNames line }

def scan (text : String) : References :=
  let found := (Text.lines text.toList).map scanLine
  { imports := found.flatMap (·.imports)
    paths := found.flatMap (·.paths)
    types := found.flatMap (·.types) }

end TypedLoader.ScriptedCompiler
