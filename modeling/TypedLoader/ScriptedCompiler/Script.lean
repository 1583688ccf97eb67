import TypedLoader.FileSystem
import TypedLoader.Diagnostic.Basic

namespace TypedLoader

structure Rule where
  pattern : String
  diagnostic : Diagnostic

namespace Rule

/-- The byte offsets of the occurrences of a pattern that do not overlap; the
next one starts after `skip` bytes at the earliest. -/
def offsets (pattern : List Char) (offset skip : Nat) : List Char → List Nat
  | [] => if pattern.isEmpty then [offset] else []
  | c :: rest =>
    if skip = 0 ∧ pattern.isPrefixOf (c :: rest) then
      let size := (String.ofList pattern).utf8ByteSize
      offset :: offsets pattern (offset + c.utf8Size) (size - c.utf8Size) rest
    else offsets pattern (offset + c.utf8Size) (skip - c.utf8Size) rest

/-- The findings of a rule in a file, which they name unless the rule names
another one. -/
def findings (r : Rule) (file : Path) (text : String) : List Diagnostic :=
  (offsets r.pattern.toList 0 0 text.toList).map fun start ↦
    { r.diagnostic with
      start
      file := if r.diagnostic.file.isEmpty then file.text else r.diagnostic.file }

end Rule

/-- Paths are in normal form; of two entries for a name the first one counts. -/
structure Script where
  modules : List (String × Path) := []
  types : List (String × Path) := []
  failing : List String := []
  skipped : List Path := []
  withoutOutput : List Path := []
  excluded : List Path := []
  emptyTranspile : Bool := false
  buildFailure : Option String := none
  transpileFailure : Option String := none
  syntactic : List Rule := []
  semantic : List Rule := []
  globalDiagnostics : List Diagnostic := []
  optionsDiagnostics : List Diagnostic := []

end TypedLoader
