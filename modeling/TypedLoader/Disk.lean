import TypedLoader.FileSystem
import TypedLoader.Text.Utf8

namespace TypedLoader

/-- A disk at one moment: the bytes of its files, without links. All paths are absolute and in
normal form, and the root is always there. -/
structure Disk where
  files : List (Path × Bytes) := []
  directories : List Path := []
deriving Inhabited

namespace Disk

def at? (d : Disk) (p : Path) : Option Bytes := d.files.lookup p

def isDirectoryAt (d : Disk) (p : Path) : Bool := p == ⟨"/"⟩ || d.directories.contains p

def inward (names : List String) : Path := Path.ofNames true names.reverse

def follow (d : Disk) (names : List String) : List (List Char) → Except ReadFailure Unit
  | [] => .ok ()
  | s :: rest =>
    if !d.isDirectoryAt (inward names) then .error .notDirectory
    else if Path.isVoid s then follow d names rest
    else if s = ['.', '.'] then follow d names.tail rest
    else
      let inner := String.ofList s :: names
      if d.isDirectoryAt (inward inner) || (d.at? (inward inner)).isSome then
        follow d inner rest
      else .error .absent

/-- The place that a path leads to. No directory is the working directory of a disk, so that a
relative path leads nowhere. -/
def locate (d : Disk) (p : Path) : Except ReadFailure Path :=
  if p.isAbsolute then (d.follow [] p.segments).map fun _ ↦ p.normalize else .error .absent

def readBytes (d : Disk) (p : Path) : Except ReadFailure Bytes :=
  match d.locate p with
  | .error e => .error e
  | .ok _ =>
    match d.at? p.normalize with
    | some bytes => .ok bytes
    | none => .error .isDirectory

def readText (d : Disk) (p : Path) : Except ReadFailure String :=
  match d.readBytes p with
  | .error e => .error e
  | .ok bytes =>
    match Text.decode? bytes with
    | some text => .ok text
    | none => .error .notText

def isFile (d : Disk) (p : Path) : Bool := (d.readBytes p).isOk

def isDirectory (d : Disk) (p : Path) : Bool :=
  match d.locate p with
  | .ok q => d.isDirectoryAt q
  | .error _ => false

/-- Creates the directories that are missing on the way along the components. What has been
created stays also where a file stands in the way; tells whether none does. -/
def makeWay (d : Disk) (names : List String) : List Component → Bool × Disk
  | [] => (true, d)
  | .name s :: cs =>
    let inner := inward (s :: names)
    if d.isDirectoryAt inner then makeWay d (s :: names) cs
    else if (d.at? inner).isSome then (false, d)
    else makeWay { d with directories := inner :: d.directories } (s :: names) cs
  | .up :: cs => makeWay d names.tail cs
  | _ :: cs => makeWay d names cs

def makeDirectories (d : Disk) (p : Path) : Bool × Disk :=
  if p.isAbsolute then d.makeWay [] p.components else (false, d)

def createDirectories (d : Disk) (p : Path) : Option Disk :=
  match d.makeDirectories p with
  | (true, made) => some made
  | (false, _) => none

def erase (d : Disk) (p : Path) : Disk := { d with files := d.files.filter (·.1 != p) }

def write (d : Disk) (p : Path) (bytes : Bytes) : Option Disk :=
  let target := p.normalize
  match p.parent? with
  | none => none
  | some parent =>
    if d.isDirectory parent && !d.isDirectoryAt target then
      some { d with files := (target, bytes) :: (d.erase target).files }
    else none

def move (d : Disk) (source target : Path) : Option Disk :=
  (d.at? source.normalize).bind fun bytes ↦ (d.erase source.normalize).write target bytes

def put (d : Disk) (p : Path) (bytes : Bytes) : Disk :=
  let target := p.normalize
  let made := (target.parent?.bind d.createDirectories).getD d
  (made.write target bytes).getD made

def list (d : Disk) (p : Path) : List String :=
  let below := d.files.filterMap fun (q, _) ↦ (q.below? p.normalize).map (·.text)
  below.mergeSort fun a b ↦ (compare a b).isLE

def toFileSystem (d : Disk) : FileSystem where
  read := d.readText
  isFile := d.isFile
  paths := d.files.map (·.1)
  mem_paths := by
    intro p text h
    unfold readText at h
    split at h
    · simp at h
    · rename_i bytes hb
      unfold readBytes at hb
      split at hb
      · simp at hb
      · split at hb
        · rename_i found
          obtain ⟨l, r, e, _⟩ := List.lookup_eq_some_iff.1 found
          simp [e]
        · simp at hb

end Disk

end TypedLoader
