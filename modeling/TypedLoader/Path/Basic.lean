import TypedLoader.Text.Search
import TypedLoader.Text.LowerCase

namespace TypedLoader

/-- A path with `/` as separator whose bytes are UTF-8 text, kept as it was written. A file system
has other paths too, which are a `RawPath` and not a `Path`. -/
structure Path where
  text : String
deriving DecidableEq, Inhabited

/-- A part of a path. The first part may be the root or the current directory;
later ones are names or steps to the parent. -/
inductive Component where
  | root
  | here
  | up
  | name (s : String)
deriving DecidableEq

namespace Component

def rank : Component → Nat
  | root => 0
  | here => 1
  | up => 2
  | name _ => 3

/-- The root comes first, then the current directory, the parent, and names in
the order of their characters. -/
def compare : Component → Component → Ordering
  | name s, name t => Ord.compare s t
  | a, b => Ord.compare a.rank b.rank

end Component

namespace Path

instance : Coe String Path := ⟨Path.mk⟩

def chars (p : Path) : List Char := p.text.toList

def ofChars (s : List Char) : Path := ⟨String.ofList s⟩

def isAbsolute (p : Path) : Bool := p.chars.head? == some '/'

def isEmpty (p : Path) : Bool := p.text.isEmpty

def startsHere (p : Path) : Bool :=
  match p.chars with
  | ['.'] => true
  | '.' :: '/' :: _ => true
  | _ => false

def lead (p : Path) : List Char :=
  if p.isAbsolute then ['/'] else if p.startsHere then ['.'] else []

def segments (p : Path) : List (List Char) :=
  Text.splitWhere (· == '/') (p.chars.drop p.lead.length)

def isVoid (s : List Char) : Bool := s == [] || s == ['.']

def component (s : List Char) : Component :=
  if s = ['.', '.'] then .up else .name (String.ofList s)

def bodyComponents (p : Path) : List Component :=
  (p.segments.filter (!isVoid ·)).map component

def components (p : Path) : List Component :=
  if p.isAbsolute then .root :: p.bodyComponents
  else if p.startsHere then .here :: p.bodyComponents
  else p.bodyComponents

/-- Follows the components from a list of names, innermost first; there is
nothing above the start. -/
def walk (names : List String) : List Component → List String
  | [] => names
  | .name s :: cs => walk (s :: names) cs
  | .up :: cs => walk names.tail cs
  | _ :: cs => walk names cs

def names (p : Path) : List String := (walk [] p.components).reverse

/-- The path through `names`, from the root or from the current directory. -/
def ofNames (absolute : Bool) (names : List String) : Path :=
  ⟨(if absolute then "/" else "") ++ "/".intercalate names⟩

/-- The one spelling without `.`, `..` and doubled separators. -/
def normalize (p : Path) : Path := ofNames p.isAbsolute p.names

def joinSegments (lead : List Char) (segments : List (List Char)) : Path :=
  ofChars (lead ++ List.intercalate ['/'] segments)

/-- The directories above the path given by its lead and its segments in
reverse, nearest first. -/
def parentsOf (lead : List Char) : List (List Char) → List Path
  | [] => if lead = ['.'] then [⟨""⟩] else []
  | s :: rest =>
    if isVoid s then parentsOf lead rest
    else joinSegments lead (rest.dropWhile isVoid).reverse :: parentsOf lead rest

def parents (p : Path) : List Path := parentsOf p.lead p.segments.reverse

def parent? (p : Path) : Option Path := p.parents.head?

def ancestors (p : Path) : List Path := p :: p.parents

def fileName? (p : Path) : Option String :=
  match p.components.getLast? with
  | some (.name s) => some s
  | _ => none

/-- A name cut at its last full stop: the stem, and the extension if there is
one. A leading full stop belongs to the stem. -/
def splitName (s : String) : String × Option String :=
  let back := s.toList.reverse
  match Text.cutAt? '.' back with
  | none => (s, none)
  | some (_, []) => (s, none)
  | some (extension, stem) => (String.ofList stem.reverse, some (String.ofList extension.reverse))

def extension? (p : Path) : Option String := p.fileName?.bind fun s ↦ (splitName s).2

def withExtension (p : Path) (extension : String) : Path :=
  match p.fileName? with
  | none => p
  | some name =>
    let front := ((p.segments.reverse.dropWhile isVoid).drop 1).reverse
    let name := (splitName name).1 ++ (if extension.isEmpty then "" else "." ++ extension)
    joinSegments p.lead (front ++ [name.toList])

def withSuffix (p : Path) (suffix : String) : Path := ⟨p.text ++ suffix⟩

/-- The path `q` as seen from the directory `p`. -/
def join (p q : Path) : Path :=
  if q.isAbsolute || p.isEmpty then q
  else if p.chars.getLast? == some '/' then ⟨p.text ++ q.text⟩
  else ⟨p.text ++ "/" ++ q.text⟩

def dropComponents : Nat → List (List Char) → List (List Char)
  | 0, segments => segments
  | _, [] => []
  | n + 1, s :: rest => if isVoid s then dropComponents (n + 1) rest else dropComponents n rest

/-- The rest of a path below the directory `base`, compared by components. -/
def below? (p base : Path) : Option Path :=
  let front := base.components
  if front.isPrefixOf p.components then
    let trimmed := (p.segments.reverse.dropWhile isVoid).reverse
    if front.isEmpty then some (joinSegments p.lead trimmed)
    else
      let inLead := p.lead.length
      some (joinSegments [] ((dropComponents (front.length - inLead) trimmed).dropWhile isVoid))
  else none

/-- The path below `base` where it is below it, and the path itself elsewhere. -/
def relativeTo (p base : Path) : Path := (p.below? base).getD p

def compare (p q : Path) : Ordering := go p.components q.components
where
  go : List Component → List Component → Ordering
    | [], [] => .eq
    | [], _ :: _ => .lt
    | _ :: _, [] => .gt
    | a :: as, b :: bs => (a.compare b).then (go as bs)

def sort (paths : List Path) : List Path := paths.mergeSort fun p q ↦ (p.compare q).isLE

def declarationSuffixes : List String := [".d.ts", ".d.mts", ".d.cts"]

def isDeclaration (p : Path) : Bool :=
  match p.fileName? with
  | none => false
  | some name =>
    let back := (name.toList.map Text.lowerAscii).reverse
    declarationSuffixes.any fun suffix ↦ suffix.toList.reverse.isPrefixOf back

end Path

end TypedLoader
