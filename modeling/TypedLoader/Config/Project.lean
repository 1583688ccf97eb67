import TypedLoader.Config.Loader
import TypedLoader.Disk

namespace TypedLoader

structure ProjectFile where
  base : Option String := none
  compilerOptions : Option Json.Object := none
  included : Option (List String) := none
  excluded : Option (List String) := none
  files : Option (List String) := none
deriving Inhabited

namespace ProjectFile

def fieldNames : List (List String) :=
  [["extends"], ["compilerOptions"], ["include"], ["exclude"], ["files"]]

def ofText? (source : String) : Option ProjectFile := do
  let strings? := Json.option? (Json.list? Json.string?)
  match ← (← Json.Relaxed.ofText? source).fields? fieldNames with
  | [base, compilerOptions, included, excluded, files] =>
    return {
      base := ← Json.default none (Json.option? Json.string?) base
      compilerOptions := ← Json.default none (Json.option? Json.object?) compilerOptions
      included := ← Json.default none strings? included
      excluded := ← Json.default none strings? excluded
      files := ← Json.default none strings? files }
  | _ => none

def extending (child base : ProjectFile) : ProjectFile where
  base := none
  compilerOptions :=
    match base.compilerOptions, child.compilerOptions with
    | some b, some c => some (b.merge c)
    | b, c => c.or b
  included := child.included.or base.included
  excluded := child.excluded.or base.excluded
  files := child.files.or base.files

/-- The file that `name` means in the file `current`: a path, or else a package
near the file. -/
def findBase (d : Disk) (current : Path) (name : String) : Except ConfigError Path :=
  match current.parent? with
  | none => .error .noDirectory
  | some directory =>
    let written : Path := ⟨name⟩
    let candidate := if written.extension?.isNone then written.withExtension "json" else written
    if candidate.isAbsolute then .ok candidate
    else if name.startsWith "." then .ok (directory.join candidate)
    else
      match (directory.ancestors.map fun a ↦ (a.join "node_modules").join candidate).find?
          d.isFile with
      | some path => .ok path
      | none => .error (.noBase name current)

def canonical (d : Disk) (p : Path) : Path :=
  match d.locate p with
  | .ok q => q
  | .error _ => p

def ahead (d : Disk) (chain : List Path) : Nat :=
  (d.files.filter fun f ↦ !chain.contains f.1).length

theorem ahead_lt {d : Disk} {chain : List Path} {p : Path} {text : String}
    (h : chain.contains (canonical d p) = false) (hr : d.readText p = .ok text) :
    ahead d (canonical d p :: chain) < ahead d chain := by
  have hl : ∃ bytes, canonical d p = p.normalize ∧ d.at? p.normalize = some bytes := by
    unfold Disk.readText at hr
    split at hr
    · simp at hr
    · rename_i bytes hb
      unfold Disk.readBytes at hb
      split at hb
      · simp at hb
      · rename_i q hq
        split at hb
        · rename_i found e
          refine ⟨found, ?_, e⟩
          simp only [canonical, hq]
          unfold Disk.locate at hq
          split at hq
          · cases hf : d.follow [] p.segments with
            | error e => simp [hf, Except.map] at hq
            | ok u => simpa [hf, Except.map] using hq.symm
          · simp at hq
        · simp at hb
  obtain ⟨bytes, hc, hm⟩ := hl
  obtain ⟨l, r, e, -⟩ := List.lookup_eq_some_iff.1 hm
  have mem : (p.normalize, bytes) ∈ d.files := by simp [e]
  rw [hc] at h ⊢
  have sub : (d.files.filter fun f ↦ !(p.normalize :: chain).contains f.1) =
      (d.files.filter fun f ↦ !chain.contains f.1).filter fun f ↦ f.1 != p.normalize := by
    rw [List.filter_filter]
    refine List.filter_congr fun f _ ↦ ?_
    rw [List.contains_cons, Bool.not_or]
    rfl
  unfold ahead
  rw [sub]
  refine List.length_filter_lt_length_iff_exists.2 ⟨(p.normalize, bytes), ?_, by simp⟩
  exact List.mem_filter.2 ⟨mem, by rw [h]; rfl⟩

/-- Loads a file over everything that it extends. `chain` holds the files on
the way to it. -/
def loadOver (d : Disk) (chain : List Path) (p : Path) : Except ConfigError ProjectFile :=
  if hc : chain.contains (canonical d p) then .error (.extendsCycle (canonical d p))
  else
    match hr : d.readText p with
    | .error _ => .error (.unreadableProject p)
    | .ok source =>
      match ofText? source with
      | none => .error (.badProjectFile p)
      | some file =>
        match file.base with
        | none => .ok file
        | some name =>
          match findBase d p name with
          | .error e => .error e
          | .ok basePath =>
            have : ahead d (canonical d p :: chain) < ahead d chain :=
              ahead_lt (by simpa using hc) hr
            (loadOver d (canonical d p :: chain) basePath).map file.extending
termination_by ahead d chain

/-- The project file at an absolute path. A relative one is not found, since a disk has no working
directory. -/
def load (d : Disk) (p : Path) : Except ConfigError ProjectFile := loadOver d [] p

end ProjectFile

/-- The compiler options of a project, and the file they come from. -/
structure Project where
  compilerOptions : Json.Object
  file : Option Path

/-- The options of the project file in `context`, if it is there, and over them
the loader's own. -/
def LoaderConfig.project (c : LoaderConfig) (d : Disk) (context : Path) :
    Except ConfigError Project :=
  let p := context.join ⟨c.projectFile⟩
  if d.isFile p then
    (ProjectFile.load d p).map fun file ↦
      ⟨Json.Object.merge (file.compilerOptions.getD []) c.compilerOptions, some p⟩
  else .ok ⟨Json.Object.merge [] c.compilerOptions, none⟩

end TypedLoader
