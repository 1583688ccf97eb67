import Std.Data.ExtTreeMap
import Std.Data.ExtTreeSet
import TypedLoader.Compiler.Basic
import TypedLoader.Path.Case

namespace TypedLoader

inductive EdgeKind where
  | source
  | declaration
  | typeReference
deriving DecidableEq, Inhabited

structure Edge where
  target : Path
  kind : EdgeKind
deriving DecidableEq, Inhabited

abbrev Memo (α : Type) := Std.ExtTreeMap String (Std.ExtTreeMap String α)

namespace Memo

variable {α : Type}

def get? (m : Memo α) (key name : String) : Option α := m[key]?.bind (·[name]?)

def add (m : Memo α) (key name : String) (value : α) : Memo α :=
  m.insert key ((m[key]?.getD ∅).insert name value)

def retain (keep : α → Bool) (m : Memo α) : Memo α :=
  m.map fun _ names ↦ names.filter fun _ value ↦ keep value

end Memo

/-- For each file the edges to the files it uses, and the resolutions already found for the names in
it. Declaration files on their way to analysis are known to the whole project. -/
structure Dependencies where
  case : PathCase
  edges : Std.ExtTreeMap String (List Edge) := ∅
  modules : Memo ResolvedModule := ∅
  types : Memo ResolvedTypes := ∅
  /-- Keys of the declaration files that have been queued for analysis. -/
  declarations : Std.ExtTreeSet String := ∅

namespace Dependencies

def key (d : Dependencies) (p : Path) : String := d.case.key p

def edgesAt (d : Dependencies) (key : String) : List Edge := d.edges[key]?.getD []

def edgesOf (d : Dependencies) (file : Path) : List Edge := d.edgesAt (d.key file)

def addEdge (d : Dependencies) (file target : Path) (kind : EdgeKind) : Dependencies :=
  { d with edges := d.edges.insert (d.key file) (d.edgesOf file ++ [⟨target, kind⟩]) }

def moduleOf? (d : Dependencies) (file : Path) (name : String) : Option ResolvedModule :=
  Memo.get? d.modules (d.key file) name

def addModule (d : Dependencies) (file : Path) (name : String) (r : ResolvedModule) :
    Dependencies :=
  { d with modules := Memo.add d.modules (d.key file) name r }

def typesOf? (d : Dependencies) (file : Path) (name : String) : Option ResolvedTypes :=
  Memo.get? d.types (d.key file) name

def addTypes (d : Dependencies) (file : Path) (name : String) (r : ResolvedTypes) :
    Dependencies :=
  { d with types := Memo.add d.types (d.key file) name r }

def isKnown (d : Dependencies) (p : Path) : Bool := d.declarations.contains (d.key p)

def mark (d : Dependencies) (p : Path) : Bool × Dependencies :=
  (!d.isKnown p, { d with declarations := d.declarations.insert (d.key p) })

def unmark (d : Dependencies) (p : Path) : Bool × Dependencies :=
  (d.isKnown p, { d with declarations := d.declarations.erase (d.key p) })

/-- Drops the edges and resolutions of a file, before it is analysed again. -/
def clear (d : Dependencies) (file : Path) : Dependencies :=
  { d with
    edges := d.edges.erase (d.key file)
    modules := d.modules.erase (d.key file)
    types := d.types.erase (d.key file) }

/-- Forgets a file: what it depends on, and every resolution that led to it. -/
def remove (d : Dependencies) (file : Path) : Dependencies :=
  let elsewhere (p : Path) : Bool := d.key p != d.key file
  { d with
    edges := d.edges.erase (d.key file)
    modules := Memo.retain (fun r ↦ elsewhere r.file) (d.modules.erase (d.key file))
    types := Memo.retain (fun r ↦ elsewhere r.file) (d.types.erase (d.key file))
    declarations := d.declarations.erase (d.key file) }

end Dependencies

end TypedLoader
