import Std.Data.ExtTreeMap
import TypedLoader.Path.Case

namespace TypedLoader

/-- A stored text. The path has its normal form, in the spelling last used. -/
structure SourceFile where
  path : Path
  text : String
  version : Nat
deriving DecidableEq, Inhabited

/-- The texts the compiler works on, with a version for each. The project version moves when files
come, go or change their names; the generation moves with every change. -/
structure FileStore where
  case : PathCase
  files : Std.ExtTreeMap String SourceFile := ∅
  projectVersion : Nat := 0
  generation : Nat := 0

namespace FileStore

def key (s : FileStore) (p : Path) : String := s.case.key p

def get? (s : FileStore) (p : Path) : Option SourceFile := s.files[s.key p]?

def has (s : FileStore) (p : Path) : Bool := s.files.contains (s.key p)

def size (s : FileStore) : Nat := s.files.size

def isEmpty (s : FileStore) : Bool := s.files.isEmpty

def all (s : FileStore) : List SourceFile := s.files.toList.map (·.2)

def paths (s : FileStore) : List Path := Path.sort (s.all.map (·.path))

def put (s : FileStore) (p : Path) (text : String) (version : Nat) : FileStore :=
  { s with
    files := s.files.insert (s.key p) { path := p.normalize, text, version }
    projectVersion := s.projectVersion + 1
    generation := s.generation + 1 }

def add (s : FileStore) (p : Path) (text : String) : FileStore := s.put p text 0

def remove (s : FileStore) (p : Path) : Option SourceFile × FileStore :=
  match s.get? p with
  | none => (none, s)
  | some file =>
    (some file, { s with
      files := s.files.erase (s.key p)
      projectVersion := s.projectVersion + 1
      generation := s.generation + 1 })

/-- Moves a file to another path, with its text and version. A file that was
there is replaced. -/
def rename (s : FileStore) (source target : Path) : Bool × FileStore :=
  match s.get? source with
  | none => (false, s)
  | some file =>
    (true, { s with files := s.files.erase (s.key source) }.put target file.text file.version)

def revise (s : FileStore) (p : Path) (text : String) (checked : Bool) : Bool × FileStore :=
  match s.get? p with
  | none => (false, s)
  | some file =>
    if checked && file.text == text then (false, s)
    else
      (true, { s with
        files := s.files.insert (s.key p) { file with text, version := file.version + 1 }
        generation := s.generation + 1 })

/-- Stores the text of a file: a new one at version 0, a known one under the
spelling given now and at its next version. A checked update leaves an equal
text as it is. Says whether a text was stored. -/
def update (s : FileStore) (p : Path) (text : String) (checked : Bool) : Bool × FileStore :=
  match s.get? p with
  | none => (true, s.add p text)
  | some file =>
    let s := if file.path = p.normalize then s else (s.rename file.path p).2
    s.revise p text checked

end FileStore

end TypedLoader
