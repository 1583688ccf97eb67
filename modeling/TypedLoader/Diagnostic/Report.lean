import TypedLoader.Diagnostic.Basic
import TypedLoader.LineMap
import TypedLoader.Path.Basic

namespace TypedLoader

structure Report where
  category : Category
  code : Nat
  file : String
  line : Nat
  character : Nat
  message : String
  pretty : String
deriving DecidableEq, Inhabited

namespace Report

def isError (r : Report) : Bool := r.category == .error

def categoryColour : Category → String
  | .error => "1;31"
  | .warning => "1;33"
  | .suggestion => "1;34"
  | .message => "1;36"

def codeColour : String := "94"

def placeColour : String := "36"

def paint (coloured : Bool) (colour text : String) : String :=
  if coloured then "\u001b[" ++ colour ++ "m" ++ text ++ "\u001b[0m" else text

def displayPath (file : String) (context : Path) : String :=
  let relative := (Path.relativeTo ⟨file⟩ context).text
  relative.map fun c ↦ if c = '\\' then '/' else c

/-- The report of a diagnostic, given the text of its file. A message nested
too deeply has none. -/
def ofDiagnostic? (d : Diagnostic) (source : Option String) (context : Path)
    (coloured : Bool) : Option Report :=
  d.message.flatten?.map fun message ↦
    let file := if d.hasFile then displayPath d.file context else ""
    let position :=
      match source with
      | some text => (LineMap.ofText text).position d.start text
      | none => ⟨0, 0⟩
    let headline := paint coloured (categoryColour d.category) d.category.name ++ " " ++
      paint coloured codeColour ("TS" ++ toString d.code) ++ ": " ++ message
    let place := file ++ ":" ++ toString (position.line + 1) ++ ":" ++
      toString (position.character + 1)
    { category := d.category
      code := d.code
      file
      line := position.line
      character := position.character
      message
      pretty := if file.isEmpty then headline
        else paint coloured placeColour place ++ " - " ++ headline }

def toJson (r : Report) : Json :=
  .obj [("category", .str r.category.name), ("code", .nat r.code), ("file", .str r.file),
    ("line", .nat r.line), ("character", .nat r.character), ("message", .str r.message),
    ("pretty", .str r.pretty)]

def fieldNames : List (List String) :=
  [["category"], ["code"], ["file"], ["line"], ["character"], ["message"], ["pretty"]]

def ofJson? (j : Json) : Option Report := do
  match ← j.fields? fieldNames with
  | [category, code, file, line, character, message, pretty] =>
    return {
      category := ← Json.required (Json.variant? Category.names) category
      code := ← Json.required (Json.natBelow? UInt32.size) code
      file := ← Json.required Json.string? file
      line := ← Json.required (Json.natBelow? UInt32.size) line
      character := ← Json.required (Json.natBelow? UInt32.size) character
      message := ← Json.required Json.string? message
      pretty := ← Json.required Json.string? pretty }
  | _ => none

end Report

end TypedLoader
