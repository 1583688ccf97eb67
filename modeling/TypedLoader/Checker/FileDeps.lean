import TypedLoader.Dependencies.Graph
import TypedLoader.Json.Basic

namespace TypedLoader

structure FileDeps where
  imports : List Path := []
  types : List Path := []
deriving DecidableEq, Inhabited

namespace FileDeps

def collect (d : Dependencies) (file : Path) : FileDeps :=
  let nodes := (d.graph file).nodes.toList.filter (·.expanded)
  { imports := nodes.filterMap fun n ↦
      if n.kind = some .source ∨ n.kind = some .declaration then some n.file else none
    types := nodes.filterMap fun n ↦
      if n.kind = some .typeReference then some n.file else none }

def all (f : FileDeps) : List Path := f.imports ++ f.types

def isEmpty (f : FileDeps) : Bool := f.imports.isEmpty && f.types.isEmpty

def toJson (f : FileDeps) : Json :=
  .obj [("dependencies", Json.strings (f.imports.map (·.text))),
    ("typeReferences", Json.strings (f.types.map (·.text)))]

def pathList? (j : Json) : Option (List Path) := j.list? fun j ↦ j.string?.map Path.mk

def ofJson? (j : Json) : Option FileDeps := do
  match ← j.fields? [["dependencies"], ["typeReferences"]] with
  | [imports, types] =>
    return {
      imports := ← Json.default [] pathList? imports
      types := ← Json.default [] pathList? types }
  | _ => none

end FileDeps

end TypedLoader
