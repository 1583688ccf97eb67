import TypedLoader.Path.Basic

namespace TypedLoader

/-- Whether the file system tells upper and lower case apart. -/
inductive PathCase where
  | sensitive
  | insensitive
deriving DecidableEq, Inhabited

namespace PathCase

def fold (case : PathCase) (text : String) : String :=
  let slashed := text.toList.map fun c ↦ if c = '\\' then '/' else c
  match case with
  | sensitive => String.ofList slashed
  | insensitive => String.ofList (Text.lowerCase slashed)

/-- The key of a path that is text. Of other paths it is made after a replacement of what is no
text, as `RawPath.key` has it, and then two of them can have one key. -/
def key (case : PathCase) (p : Path) : String := case.fold p.normalize.text

def name : PathCase → String
  | sensitive => "sensitive"
  | insensitive => "insensitive"

def names : List (String × PathCase) :=
  [("sensitive", sensitive), ("insensitive", insensitive)]

end PathCase

end TypedLoader
