import TypedLoader.Compiler.Basic
import TypedLoader.Dependencies.Basic
import TypedLoader.FileStore
import TypedLoader.FileSystem
import TypedLoader.Outcome

namespace TypedLoader

/-- What compilation takes from outside: the compiler, the files, whether paths
are compared by case unless a request says so, and whether reports are
coloured. -/
structure World where
  compiler : Compiler
  files : FileSystem
  defaultCase : PathCase := .sensitive
  coloured : Bool := true

inductive Validity where
  | valid
  | invalid
deriving DecidableEq, Inhabited

abbrev Marks := Std.ExtTreeMap String Validity

namespace Analysis

def isValid (marks : Marks) (key : String) : Bool := marks[key]? == some .valid

/-- Resolves the name of a module. What was found is remembered, what was not
is looked up again. -/
def resolveModule (w : World) (options : Json.Object) (file : Path) (name : String) :
    Action Dependencies CompileError (Option ResolvedModule) := fun d ↦
  match d.moduleOf? file name with
  | some r => ⟨.ok (some r), d, []⟩
  | none =>
    match w.compiler.resolveModule name file options with
    | .error reason => ⟨.error (.unresolved file name reason), d, [.resolve name file]⟩
    | .ok none => ⟨.ok none, d, [.resolve name file]⟩
    | .ok (some r) => ⟨.ok (some r), d.addModule file name r, [.resolve name file]⟩

def resolveTypes (w : World) (options : Json.Object) (file : Path) (name : String) :
    Action Dependencies CompileError (Option ResolvedTypes) := fun d ↦
  match d.typesOf? file name with
  | some r => ⟨.ok (some r), d, []⟩
  | none =>
    match w.compiler.resolveTypes name file options with
    | .error reason => ⟨.error (.unresolved file name reason), d, [.resolve name file]⟩
    | .ok none => ⟨.ok none, d, [.resolve name file]⟩
    | .ok (some r) => ⟨.ok (some r), d.addTypes file name r, [.resolve name file]⟩

/-- The edges recorded so far, and the files that wait for a visit. -/
structure Links where
  deps : Dependencies
  queue : List Path

structure Site where
  world : World
  options : Json.Object
  file : Path
  valid : Path → Bool
  stored : Path → Bool

namespace Links

def announce (l : Links) (target : Path) : Links :=
  let (isNew, deps) := l.deps.mark target
  { deps, queue := if isNew then l.queue ++ [target] else l.queue }

/-- Records an edge to a file, and lets the file wait if it needs a visit. -/
def link (s : Site) (l : Links) (target : Path) : Links :=
  if target.isDeclaration then
    { l with deps := l.deps.addEdge s.file target .declaration }.announce target
  else
    { deps := l.deps.addEdge s.file target .source
      queue := if s.valid target then l.queue else l.queue ++ [target] }

def linkPath (s : Site) (l : Links) (reference : String) : Links :=
  let base := s.file.parent?.getD ⟨""⟩
  let target := (base.join ⟨reference⟩).normalize
  if s.stored target || s.world.files.isFile target then l.link s target else l

def onDeps {α : Type} (a : Action Dependencies CompileError α) : Action Links CompileError α :=
  a.within Links.deps fun deps l ↦ { l with deps }

def linkImport (s : Site) (name : String) : Action Links CompileError Unit := do
  match ← onDeps (resolveModule s.world s.options s.file name) with
  | none => pure ()
  | some r => Action.modify fun l ↦ l.link s r.file.normalize

def linkTypes (s : Site) (name : String) : Action Links CompileError Unit := do
  match ← onDeps (resolveTypes s.world s.options s.file name) with
  | none => pure ()
  | some r =>
    let target := r.file.normalize
    Action.modify fun l ↦
      { l with deps := l.deps.addEdge s.file target .typeReference }.announce target

def linkAll (s : Site) (refs : References) : Action Links CompileError Unit := do
  refs.imports.forM (linkImport s)
  Action.modify fun l ↦ refs.paths.foldl (linkPath s) l
  refs.types.forM (linkTypes s)

end Links

/-- A walk under way. `analyzed` lists the visited files, oldest first. -/
structure Walk where
  files : FileStore
  deps : Dependencies
  marks : Marks
  queue : List Path
  analyzed : List Path := []
  changed : Bool := false

namespace Walk

def load (w : World) (files : FileStore) (file : Path) : Outcome FileStore CompileError String :=
  match files.get? file with
  | some source => ⟨.ok source.text, files, []⟩
  | none =>
    match w.files.read file with
    | .ok text => ⟨.ok text, files.add file text, [.read file]⟩
    | .error cause => ⟨.error (.unreadable file cause), files, [.read file]⟩

/-- Visits a file that has been marked: records its links in place of its old
ones. -/
def visit (w : World) (options : Json.Object) (k : Walk) (file : Path) :
    Outcome Walk CompileError Unit :=
  match load w k.files file with
  | ⟨.error e, files, calls⟩ => ⟨.error e, { k with files, deps := k.deps.clear file }, calls⟩
  | ⟨.ok text, files, calls⟩ =>
    let site : Site := {
      world := w, options, file
      valid := fun p ↦ isValid k.marks (files.key p)
      stored := files.has }
    let o := (Links.linkAll site (w.compiler.scan text)).run ⟨k.deps.clear file, k.queue⟩
    ⟨o.result,
      { k with
        files
        deps := o.state.deps
        queue := o.state.queue
        changed := k.changed || !k.files.has file },
      calls ++ [.scan text] ++ o.calls⟩

def enter (k : Walk) (file : Path) (queue : List Path) : Walk :=
  { k with
    queue
    marks := k.marks.insert (k.files.key file) .valid
    analyzed := k.analyzed ++ [file] }

/-- Undoes a failed walk: no visited file stays valid, since files it depends
on may not have been visited, and declaration files can be queued again. -/
def abandon (k : Walk) : Walk :=
  { k with
    marks := k.analyzed.foldl (fun m p ↦ m.insert (k.files.key p) .invalid) k.marks
    deps := (k.analyzed ++ k.queue).foldl
      (fun d p ↦ if p.isDeclaration then (d.unmark p).2 else d) k.deps }

def readable (w : World) (case : PathCase) : List String :=
  w.files.paths.map fun p ↦ case.fold p.text

def toVisit (w : World) (k : Walk) : Nat :=
  (k.files.files.keys.filter (!isValid k.marks ·)).length +
    ((readable w k.files.case).filter (!isValid k.marks ·)).length

theorem load_files {w : World} {files files' : FileStore} {file : Path} {text : String}
    {calls : List Call} (h : load w files file = ⟨.ok text, files', calls⟩) :
    files' = files ∧ files.key file ∈ files.files ∨
      files' = files.add file text ∧ files.key file ∈ readable w files.case := by
  unfold load at h
  split at h
  · rename_i source hs
    simp only [Outcome.mk.injEq, Except.ok.injEq] at h
    refine Or.inl ⟨h.2.1.symm, ?_⟩
    rw [FileStore.get?] at hs
    exact Std.ExtTreeMap.mem_iff_isSome_getElem?.2 (by simp [hs])
  · split at h
    · rename_i text' hr
      simp only [Outcome.mk.injEq, Except.ok.injEq] at h
      refine Or.inr ⟨by rw [← h.1, h.2.1], ?_⟩
      exact List.mem_map.2 ⟨file.normalize, w.files.mem_paths hr, rfl⟩
    · simp at h

theorem visit_spec {w : World} {options : Json.Object} {k k' : Walk} {file : Path}
    {calls : List Call} (h : visit w options k file = ⟨.ok (), k', calls⟩) :
    k'.marks = k.marks ∧ (k'.files = k.files ∧ k.files.key file ∈ k.files.files ∨
      ∃ text, k'.files = k.files.add file text ∧ k.files.key file ∈ readable w k.files.case) := by
  unfold visit at h
  split at h
  · simp at h
  · rename_i text files calls hl
    simp only [Outcome.mk.injEq] at h
    obtain ⟨-, rfl, -⟩ := h
    refine ⟨rfl, ?_⟩
    rcases load_files hl with h | h
    · exact Or.inl h
    · exact Or.inr ⟨text, h⟩

theorem isValid_insert (marks : Marks) (key key' : String) :
    isValid (marks.insert key .valid) key' = (key == key' || isValid marks key') := by
  unfold isValid
  rw [Std.ExtTreeMap.getElem?_insert]
  by_cases h : key = key'
  · simp [h]
  · simp [h]

theorem filter_isValid_insert (marks : Marks) (key : String) (keys : List String) :
    keys.filter (!isValid (marks.insert key .valid) ·) =
      (keys.filter (!isValid marks ·)).filter (· != key) := by
  rw [List.filter_filter]
  refine List.filter_congr fun k _ ↦ ?_
  rw [isValid_insert]
  by_cases h : key = k
  · simp [h]
  · have h' : ¬k = key := Ne.symm h
    simp [bne, beq_eq_false_iff_ne.2 h, beq_eq_false_iff_ne.2 h']

theorem length_filter_insert_le (marks : Marks) (key : String) (keys : List String) :
    (keys.filter (!isValid (marks.insert key .valid) ·)).length ≤
      (keys.filter (!isValid marks ·)).length := by
  rw [filter_isValid_insert]
  exact List.length_filter_le ..

theorem length_filter_insert_lt {marks : Marks} {key : String} {keys : List String}
    (h : key ∈ keys) (hv : isValid marks key = false) :
    (keys.filter (!isValid (marks.insert key .valid) ·)).length <
      (keys.filter (!isValid marks ·)).length := by
  rw [filter_isValid_insert]
  refine List.length_filter_lt_length_iff_exists.2 ⟨key, ?_, by simp⟩
  simp [h, hv]

theorem length_keys_insert_le (marks : Marks) (files : Std.ExtTreeMap String SourceFile)
    (key : String) (file : SourceFile) :
    ((files.insert key file).keys.filter (!isValid (marks.insert key .valid) ·)).length ≤
      (files.keys.filter (!isValid marks ·)).length := by
  rw [filter_isValid_insert]
  refine List.Nodup.length_le_of_subset ?_ fun k hk ↦ ?_
  · exact (Std.ExtTreeMap.nodup_keys.filter _).filter _
  · simp only [List.mem_filter, Std.ExtTreeMap.mem_keys, Std.ExtTreeMap.mem_insert,
      bne_iff_ne] at hk ⊢
    obtain ⟨⟨h | h, hv⟩, hne⟩ := hk
    · exact absurd (Std.LawfulEqCmp.eq_of_compare h).symm hne
    · exact ⟨h, hv⟩

theorem toVisit_lt {w : World} {options : Json.Object} {k k' : Walk} {file : Path}
    {queue : List Path} {calls : List Call} (hv : isValid k.marks (k.files.key file) = false)
    (h : visit w options (k.enter file queue) file = ⟨.ok (), k', calls⟩) :
    toVisit w k' < toVisit w k := by
  obtain ⟨hm, hf⟩ := visit_spec h
  simp only [enter] at hm hf
  unfold toVisit
  rw [hm]
  rcases hf with ⟨hf, hmem⟩ | ⟨text, hf, hmem⟩
  · rw [hf]
    exact Nat.add_lt_add_of_lt_of_le
      (length_filter_insert_lt (Std.ExtTreeMap.mem_keys.2 hmem) hv) (length_filter_insert_le ..)
  · have hc : k'.files.case = k.files.case := by rw [hf]; rfl
    rw [hc, hf]
    exact Nat.add_lt_add_of_le_of_lt (length_keys_insert_le ..) (length_filter_insert_lt hmem hv)

def run (w : World) (options : Json.Object) (k : Walk) : Outcome Walk CompileError Unit :=
  match hq : k.queue with
  | [] => ⟨.ok (), k, []⟩
  | file :: queue =>
    if hv : isValid k.marks (k.files.key file) then
      have : queue.length < k.queue.length := by simp [hq]
      run w options { k with queue }
    else
      match h : visit w options (k.enter file queue) file with
      | ⟨.error e, k, calls⟩ => ⟨.error e, k.abandon, calls⟩
      | ⟨.ok (), next, calls⟩ =>
        have : toVisit w next < toVisit w k := toVisit_lt (by simpa using hv) h
        (run w options next).after calls
termination_by (k.toVisit w, k.queue.length)
decreasing_by
  · exact Prod.Lex.right _ this
  · exact Prod.Lex.left _ _ this

end Walk

end Analysis

end TypedLoader
