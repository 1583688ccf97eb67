import TypedLoader.Compiler.Error

namespace TypedLoader

/-- A file system at one moment. `paths` lists the normal forms of all files
that can be read. -/
structure FileSystem where
  read : Path → Except ReadFailure String
  isFile : Path → Bool
  paths : List Path
  mem_paths : ∀ {p : Path} {text : String}, read p = .ok text → p.normalize ∈ paths

/-- Files kept in memory, each under the normal form of its path. -/
structure MemoryFiles where
  files : List (Path × String) := []
deriving Inhabited

namespace MemoryFiles

def find? (m : MemoryFiles) (p : Path) : Option String := m.files.lookup p.normalize

def contains (m : MemoryFiles) (p : Path) : Bool := (m.find? p).isSome

def delete (m : MemoryFiles) (p : Path) : MemoryFiles :=
  ⟨m.files.filter (·.1 != p.normalize)⟩

def write (m : MemoryFiles) (p : Path) (text : String) : MemoryFiles :=
  ⟨(p.normalize, text) :: (m.delete p).files⟩

theorem mem_of_find? {m : MemoryFiles} {p : Path} {text : String} (h : m.find? p = some text) :
    p.normalize ∈ m.files.map (·.1) := by
  obtain ⟨l, r, e, _⟩ := List.lookup_eq_some_iff.1 h
  simp [e]

def toFileSystem (m : MemoryFiles) : FileSystem where
  read p :=
    match m.find? p with
    | some text => .ok text
    | none => .error (.unknown p.normalize)
  isFile := m.contains
  paths := m.files.map (·.1)
  mem_paths := by
    intro p text h
    split at h
    · rename_i found
      exact mem_of_find? found
    · simp at h

end MemoryFiles

end TypedLoader
