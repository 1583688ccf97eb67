import TypedLoader.Proofs.FileStore

namespace TypedLoader.FileStore

inductive Change where
  | add (p : Path) (text : String)
  | update (p : Path) (text : String) (checked : Bool)
  | remove (p : Path)
  | rename (source target : Path)

def Change.apply (s : FileStore) : Change → FileStore
  | add p text => s.add p text
  | update p text checked => (s.update p text checked).2
  | remove p => (s.remove p).2
  | rename source target => (s.rename source target).2

def through (s : FileStore) (changes : List Change) : FileStore := changes.foldl Change.apply s

structure Revises (file file' : SourceFile) : Prop where
  path : file'.path = file.path
  version : file.version ≤ file'.version
  text : file'.version = file.version → file'.text = file.text

/-- What the counters tell of two stores, the second of which comes later. -/
structure Precedes (s s' : FileStore) : Prop where
  advances : Advances s s'
  projectVersion : s.projectVersion ≤ s'.projectVersion
  counted : s'.projectVersion + s.generation ≤ s'.generation + s.projectVersion
  project : s'.projectVersion = s.projectVersion →
    ∀ key : String, Option.Rel Revises s.files[key]? s'.files[key]?

section Comparing

variable {s s₁ s' : FileStore}

theorem Revises.refl (file : SourceFile) : Revises file file :=
  ⟨rfl, Nat.le_refl _, fun _ ↦ rfl⟩

theorem Revises.trans {file file₁ file' : SourceFile} (h : Revises file file₁)
    (h' : Revises file₁ file') : Revises file file' where
  path := h'.path.trans h.path
  version := Nat.le_trans h.version h'.version
  text he := by
    have hfirst : file₁.version = file.version :=
      Nat.le_antisymm (he ▸ h'.version) h.version
    exact (h'.text (he.trans hfirst.symm)).trans (h.text hfirst)

theorem rel_revises_refl (o : Option SourceFile) : Option.Rel Revises o o := by
  cases o with
  | none => exact .none
  | some file => exact .some (.refl file)

theorem rel_revises_trans {o o₁ o' : Option SourceFile} (h : Option.Rel Revises o o₁)
    (h' : Option.Rel Revises o₁ o') : Option.Rel Revises o o' := by
  cases h with
  | none => exact h'
  | some h =>
    cases h' with
    | some h' => exact .some (h.trans h')

theorem Precedes.refl (s : FileStore) : Precedes s s :=
  ⟨.refl s, Nat.le_refl _, Nat.le_of_eq (Nat.add_comm ..), fun _ _ ↦ rel_revises_refl _⟩

theorem Precedes.trans (h : Precedes s s₁) (h' : Precedes s₁ s') : Precedes s s' where
  advances := h.advances.trans h'.advances
  projectVersion := Nat.le_trans h.projectVersion h'.projectVersion
  counted := by
    have hfirst := h.counted
    have hsecond := h'.counted
    omega
  project he key := by
    have hfirst : s₁.projectVersion = s.projectVersion :=
      Nat.le_antisymm (he ▸ h'.projectVersion) h.projectVersion
    exact rel_revises_trans (h.project hfirst key) (h'.project (he.trans hfirst.symm) key)

theorem precedes_of_moved (hp : s'.projectVersion = s.projectVersion + 1)
    (hg : s'.generation = s.generation + 1) : Precedes s s' where
  advances := Or.inr (hg ▸ Nat.lt_succ_self _)
  projectVersion := hp ▸ Nat.le_succ _
  counted := by omega
  project he := by omega

end Comparing

theorem precedes_put (s : FileStore) (p : Path) (text : String) (version : Nat) :
    Precedes s (s.put p text version) := precedes_of_moved rfl rfl

theorem precedes_remove (s : FileStore) (p : Path) : Precedes s (s.remove p).2 := by
  rw [remove]
  split
  · exact .refl s
  · exact precedes_of_moved rfl rfl

theorem precedes_rename (s : FileStore) (source target : Path) :
    Precedes s (s.rename source target).2 := by
  rw [rename]
  split
  · exact .refl s
  · exact precedes_of_moved rfl rfl

/-- A new text stays under the spelling of its file. -/
theorem precedes_revise (s : FileStore) (p : Path) (text : String) (checked : Bool) :
    Precedes s (s.revise p text checked).2 := by
  rw [revise]
  split
  · exact .refl s
  · rename_i file hf
    split
    · exact .refl s
    · refine ⟨Or.inr (Nat.lt_succ_self _), Nat.le_refl _, ?_, fun _ key ↦ ?_⟩
      · dsimp only
        omega
      · simp only [Std.ExtTreeMap.getElem?_insert, Std.LawfulEqCmp.compare_eq_iff_eq]
        split
        · rename_i hk
          rw [get?, hk] at hf
          rw [hf]
          exact .some ⟨rfl, Nat.le_succ _, fun he ↦ absurd he (Nat.succ_ne_self _)⟩
        · exact rel_revises_refl _

theorem precedes_update (s : FileStore) (p : Path) (text : String) (checked : Bool) :
    Precedes s (s.update p text checked).2 := by
  rw [update]
  split
  · exact precedes_put s p text 0
  · rename_i file _
    have hrespell : Precedes s (if file.path = p.normalize then s
        else (s.rename file.path p).2) := by
      split
      · exact .refl s
      · exact precedes_rename s file.path p
    exact hrespell.trans (precedes_revise _ p text checked)

theorem Change.precedes (s : FileStore) (change : Change) : Precedes s (change.apply s) := by
  cases change with
  | add p text => exact precedes_put s p text 0
  | update p text checked => exact precedes_update s p text checked
  | remove p => exact precedes_remove s p
  | rename source target => exact precedes_rename s source target

theorem through_append (s : FileStore) (before after : List Change) :
    s.through (before ++ after) = (s.through before).through after := List.foldl_append

theorem precedes_through (s : FileStore) (changes : List Change) :
    Precedes s (s.through changes) := by
  induction changes generalizing s with
  | nil => exact .refl s
  | cons change rest ih => exact (change.precedes s).trans (ih (change.apply s))

/-- At two points of a run, whatever was done before and between them: neither counter has
fallen, and the project version is not above the generation. If the generation is the
same, so is all that is stored. If the project version is the same, the same paths are
stored, and a file with the same version has the same text. -/
theorem versions_tell_content (case : PathCase) (before between : List Change) :
    let s := ({ case } : FileStore).through before
    let s' := ({ case } : FileStore).through (before ++ between)
    (s.generation ≤ s'.generation ∧ s.projectVersion ≤ s'.projectVersion ∧
      s.projectVersion ≤ s.generation ∧ s'.projectVersion ≤ s'.generation) ∧
    (s'.generation = s.generation → s'.files = s.files) ∧
    (s'.projectVersion = s.projectVersion → ∀ key : String, Option.Rel
      (fun file file' : SourceFile ↦ file'.path = file.path ∧ file.version ≤ file'.version ∧
        (file'.version = file.version → file'.text = file.text))
      s.files[key]? s'.files[key]?) := by
  intro s s'
  have hcounted (changes : List Change) : (({ case } : FileStore).through changes).projectVersion ≤
      (({ case } : FileStore).through changes).generation :=
    (precedes_through { case } changes).counted
  have h : Precedes s s' := by
    have hsplit : s' = s.through between := through_append _ before between
    rw [hsplit]
    exact precedes_through s between
  refine ⟨⟨h.advances.le, h.projectVersion, hcounted before, hcounted (before ++ between)⟩, ?_, ?_⟩
  · intro hg
    rcases h.advances with he | hlt
    · rw [he]
    · exact absurd (hg ▸ hlt) (Nat.lt_irrefl _)
  · intro hp key
    have hrel := h.project hp key
    cases hs : s.files[key]? <;> cases hs' : s'.files[key]? <;> rw [hs, hs'] at hrel <;> cases hrel
    · exact .none
    · rename_i hrev
      exact .some ⟨hrev.path, hrev.version, hrev.text⟩

end TypedLoader.FileStore
