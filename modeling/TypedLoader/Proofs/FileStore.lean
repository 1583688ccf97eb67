import TypedLoader.FileStore
import TypedLoader.Proofs.Path.Normal

namespace TypedLoader.FileStore

/-- Every file is stored under the key of its path. -/
def Kept (s : FileStore) : Prop :=
  ∀ key file, s.files[key]? = some file → s.key file.path = key

theorem key_eq_key_of_case {s s' : FileStore} (h : s'.case = s.case) (p : Path) :
    s'.key p = s.key p := by
  rw [key, h, key]

theorem kept_empty (case : PathCase) : ({ case } : FileStore).Kept := by
  intro key file h
  rw [Std.ExtTreeMap.getElem?_empty] at h
  cases h

theorem getElem?_put (s : FileStore) (p : Path) (text : String) (version : Nat) (key : String) :
    (s.put p text version).files[key]? =
      if s.key p = key then some ⟨p.normalize, text, version⟩ else s.files[key]? := by
  rw [put, Std.ExtTreeMap.getElem?_insert]
  simp only [Std.LawfulEqCmp.compare_eq_iff_eq]

theorem mem_put (s : FileStore) (p : Path) (text : String) (version : Nat) (key : String) :
    key ∈ (s.put p text version).files ↔ s.key p = key ∨ key ∈ s.files := by
  rw [put, Std.ExtTreeMap.mem_insert, Std.LawfulEqCmp.compare_eq_iff_eq]

theorem Kept.put {s : FileStore} (h : s.Kept) (p : Path) (text : String) (version : Nat) :
    (s.put p text version).Kept := by
  intro key file hf
  rw [getElem?_put] at hf
  split at hf
  · rename_i hk
    obtain rfl := Option.some.inj hf
    exact (s.case.key_normalize p).trans hk
  · exact h _ _ hf

theorem Kept.add {s : FileStore} (h : s.Kept) (p : Path) (text : String) : (s.add p text).Kept :=
  h.put p text 0

theorem Kept.erase {s : FileStore} (h : s.Kept) (key : String) :
    ({ s with files := s.files.erase key } : FileStore).Kept := by
  intro key' file hf
  rw [Std.ExtTreeMap.getElem?_erase] at hf
  split at hf
  · cases hf
  · exact h _ _ hf

theorem Kept.of_get? {s : FileStore} (h : s.Kept) {p : Path} {file : SourceFile}
    (hf : s.get? p = some file) :
    s.key file.path = s.key p ∧ s.get? file.path = some file := by
  have hkey : s.key file.path = s.key p := h _ _ hf
  refine ⟨hkey, ?_⟩
  rw [get?, hkey]
  exact hf

theorem mem_of_get? {s : FileStore} {p : Path} {file : SourceFile} (h : s.get? p = some file) :
    s.key p ∈ s.files := by
  rw [get?] at h
  exact Std.ExtTreeMap.mem_iff_isSome_getElem?.2 (by simp [h])

theorem mem_paths (s : FileStore) (q : Path) : q ∈ s.paths ↔
    ∃ (key : String) (file : SourceFile), s.files[key]? = some file ∧ file.path = q := by
  rw [paths, Path.sort, List.mem_mergeSort, all, List.map_map, List.mem_map]
  constructor
  · rintro ⟨⟨key, file⟩, hm, rfl⟩
    exact ⟨key, file, Std.ExtTreeMap.mem_toList_iff_getElem?_eq_some.1 hm, rfl⟩
  · rintro ⟨key, file, hf, rfl⟩
    exact ⟨(key, file), Std.ExtTreeMap.mem_toList_iff_getElem?_eq_some.2 hf, rfl⟩

theorem has_iff {s : FileStore} (h : s.Kept) (p : Path) :
    s.has p = true ↔ ∃ q ∈ s.paths, s.key q = s.key p := by
  rw [has, Std.ExtTreeMap.contains_iff_mem]
  constructor
  · intro hm
    obtain ⟨file, hf⟩ := Option.isSome_iff_exists.1 (Std.ExtTreeMap.mem_iff_isSome_getElem?.1 hm)
    exact ⟨file.path, (mem_paths s _).2 ⟨s.key p, file, hf, rfl⟩, h _ _ hf⟩
  · rintro ⟨q, hq, hkey⟩
    obtain ⟨key, file, hf, rfl⟩ := (mem_paths s q).1 hq
    rw [← hkey, h _ _ hf]
    exact Std.ExtTreeMap.mem_iff_isSome_getElem?.2 (by simp [hf])

theorem case_remove (s : FileStore) (p : Path) : (s.remove p).2.case = s.case := by
  rw [remove]
  split <;> rfl

theorem Kept.remove {s : FileStore} (h : s.Kept) (p : Path) : (s.remove p).2.Kept := by
  rw [FileStore.remove]
  split
  · exact h
  · exact h.erase (s.key p)

theorem mem_remove (s : FileStore) (p : Path) (key : String) :
    key ∈ (s.remove p).2.files ↔ s.key p ≠ key ∧ key ∈ s.files := by
  rw [remove]
  split
  · rename_i hnone
    have hn : s.key p ∉ s.files := by
      rw [get?] at hnone
      rw [Std.ExtTreeMap.mem_iff_isSome_getElem?, hnone]
      exact Bool.false_ne_true
    refine ⟨fun hm ↦ ⟨?_, hm⟩, And.right⟩
    rintro rfl
    exact hn hm
  · rw [Std.ExtTreeMap.mem_erase, Ne, Std.LawfulEqCmp.compare_eq_iff_eq]

theorem getElem?_remove (s : FileStore) (p : Path) (key : String) :
    (s.remove p).2.files[key]? = if s.key p = key then none else s.files[key]? := by
  rw [remove]
  split
  · rename_i hnone
    split
    · rename_i hk
      rw [← hk]
      exact hnone
    · rfl
  · rw [Std.ExtTreeMap.getElem?_erase]
    simp only [Std.LawfulEqCmp.compare_eq_iff_eq]

theorem case_revise (s : FileStore) (p : Path) (text : String) (checked : Bool) :
    (s.revise p text checked).2.case = s.case := by
  rw [revise]
  split
  · rfl
  · split <;> rfl

theorem Kept.revise {s : FileStore} (h : s.Kept) (p : Path) (text : String) (checked : Bool) :
    (s.revise p text checked).2.Kept := by
  rw [FileStore.revise]
  split
  · exact h
  · rename_i file hf
    split
    · exact h
    · intro key file' hk
      have hk : (s.files.insert (s.key p) { file with text, version := file.version + 1 })[key]? =
          some file' := hk
      rw [Std.ExtTreeMap.getElem?_insert] at hk
      split at hk
      · rename_i he
        obtain rfl := Option.some.inj hk
        exact (h _ _ hf).trans (Std.LawfulEqCmp.eq_of_compare he)
      · exact h _ _ hk

theorem mem_revise (s : FileStore) (p : Path) (text : String) (checked : Bool) (key : String) :
    key ∈ (s.revise p text checked).2.files ↔ key ∈ s.files := by
  rw [FileStore.revise]
  split
  · rfl
  · rename_i file hf
    split
    · rfl
    · rw [Std.ExtTreeMap.mem_insert, Std.LawfulEqCmp.compare_eq_iff_eq, or_iff_right_iff_imp]
      rintro rfl
      exact mem_of_get? hf

theorem mem_respell {s : FileStore} (h : s.Kept) {p : Path} {file : SourceFile}
    (hf : s.get? p = some file) (key : String) :
    key ∈ (s.rename file.path p).2.files ↔ key ∈ s.files := by
  obtain ⟨hkey, hg⟩ := h.of_get? hf
  rw [rename, hg]
  simp only [mem_put, Std.ExtTreeMap.mem_erase, hkey]
  have hk : ({ s with files := s.files.erase (s.key p) } : FileStore).key p = s.key p := rfl
  rw [hk]
  constructor
  · rintro (rfl | ⟨-, hm⟩)
    · exact mem_of_get? hf
    · exact hm
  · intro hm
    by_cases he : s.key p = key
    · exact Or.inl he
    · refine Or.inr ⟨?_, hm⟩
      rw [Ne, Std.LawfulEqCmp.compare_eq_iff_eq]
      exact he

theorem case_rename (s : FileStore) (source target : Path) :
    (s.rename source target).2.case = s.case := by
  rw [rename]
  split <;> rfl

theorem Kept.rename {s : FileStore} (h : s.Kept) (source target : Path) :
    (s.rename source target).2.Kept := by
  rw [FileStore.rename]
  split
  · exact h
  · exact (h.erase (s.key source)).put _ _ _

theorem case_update (s : FileStore) (p : Path) (text : String) (checked : Bool) :
    (s.update p text checked).2.case = s.case := by
  rw [update]
  split
  · rfl
  · rw [case_revise]
    split
    · rfl
    · exact case_rename ..

theorem Kept.update {s : FileStore} (h : s.Kept) (p : Path) (text : String) (checked : Bool) :
    (s.update p text checked).2.Kept := by
  rw [FileStore.update]
  split
  · exact h.add p text
  · refine Kept.revise ?_ _ _ _
    split
    · exact h
    · exact h.rename _ _

theorem mem_update {s : FileStore} (h : s.Kept) (p : Path) (text : String) (checked : Bool)
    (key : String) : key ∈ (s.update p text checked).2.files ↔ s.key p = key ∨ key ∈ s.files := by
  rw [update]
  split
  · exact mem_put ..
  · rename_i file hf
    have hp : s.key p = key ∨ key ∈ s.files ↔ key ∈ s.files := by
      rw [or_iff_right_iff_imp]
      rintro rfl
      exact mem_of_get? hf
    rw [mem_revise, hp]
    split
    · rfl
    · exact mem_respell h hf key

theorem getElem?_rename {s : FileStore} {source : Path} {file : SourceFile}
    (hf : s.get? source = some file) (target : Path) (key : String) :
    (s.rename source target).2.files[key]? =
      if s.key target = key then some ⟨target.normalize, file.text, file.version⟩
      else if s.key source = key then none else s.files[key]? := by
  rw [rename, hf]
  simp only [getElem?_put, Std.ExtTreeMap.getElem?_erase, Std.LawfulEqCmp.compare_eq_iff_eq]
  rfl

theorem getElem?_revise {s : FileStore} {p : Path} {file : SourceFile}
    (hf : s.get? p = some file) (text : String) (checked : Bool) :
    ∃ version, ∀ key, (s.revise p text checked).2.files[key]? =
      if s.key p = key then some { file with text, version } else s.files[key]? := by
  rw [revise, hf]
  simp only
  split
  · rename_i he
    refine ⟨file.version, fun key ↦ ?_⟩
    split
    · rename_i hk
      have ht : file.text = text := by simpa using (Bool.and_eq_true_iff.1 he).2
      rw [get?, hk] at hf
      rw [hf, ← ht]
    · rfl
  · refine ⟨file.version + 1, fun key ↦ ?_⟩
    simp only [Std.ExtTreeMap.getElem?_insert, Std.LawfulEqCmp.compare_eq_iff_eq]

theorem text_of_revise {s : FileStore} {p : Path} {file : SourceFile} (hf : s.get? p = some file)
    {text : String} (hr : (s.revise p text true).1 = false) : file.text = text := by
  rw [revise, hf] at hr
  simp only [Bool.true_and, beq_iff_eq] at hr
  split at hr
  · assumption
  · cases hr

theorem getElem?_respell {s : FileStore} (h : s.Kept) {p : Path} {file : SourceFile}
    (hf : s.get? p = some file) :
    let s' := if file.path = p.normalize then s else (s.rename file.path p).2
    s'.key p = s.key p ∧ ∀ key, s'.files[key]? =
      if s.key p = key then some ⟨p.normalize, file.text, file.version⟩ else s.files[key]? := by
  intro s'
  by_cases hp : file.path = p.normalize
  · have hs : s' = s := if_pos hp
    rw [hs]
    refine ⟨rfl, fun key ↦ ?_⟩
    split
    · rename_i hk
      rw [← hk, ← hp]
      exact hf
    · rfl
  · have hs : s' = (s.rename file.path p).2 := if_neg hp
    obtain ⟨hkey, hg⟩ := h.of_get? hf
    rw [hs]
    refine ⟨key_eq_key_of_case (case_rename s file.path p) p, fun key ↦ ?_⟩
    rw [getElem?_rename hg, hkey]
    split <;> rfl

theorem getElem?_update {s : FileStore} (h : s.Kept) (p : Path) (text : String) (checked : Bool) :
    ∃ version, ∀ key, (s.update p text checked).2.files[key]? =
      if s.key p = key then some ⟨p.normalize, text, version⟩ else s.files[key]? := by
  rw [update]
  split
  · exact ⟨0, getElem?_put s p text 0⟩
  · rename_i file hf
    obtain ⟨hk, hfiles⟩ := getElem?_respell h hf
    have hf' := hfiles (s.key p)
    rw [if_pos rfl, ← hk] at hf'
    obtain ⟨version, hrevise⟩ := getElem?_revise hf' text checked
    refine ⟨version, fun key ↦ ?_⟩
    rw [hrevise, hk, hfiles]
    split <;> rfl

theorem text_of_update {s : FileStore} (h : s.Kept) {p : Path} {text : String}
    (hu : (s.update p text true).1 = false) : ∃ file, s.get? p = some file ∧ file.text = text := by
  rw [update] at hu
  split at hu
  · cases hu
  · rename_i file hf
    obtain ⟨hk, hfiles⟩ := getElem?_respell h hf
    have hf' := hfiles (s.key p)
    rw [if_pos rfl, ← hk] at hf'
    exact ⟨file, hf, text_of_revise hf' hu⟩

def Advances (s s' : FileStore) : Prop := s' = s ∨ s.generation < s'.generation

section Advancing

variable {s s₁ s₂ : FileStore}

theorem Advances.refl (s : FileStore) : Advances s s := Or.inl rfl

theorem Advances.le (h : Advances s s₁) : s.generation ≤ s₁.generation := by
  rcases h with rfl | h
  · exact Nat.le_refl _
  · exact Nat.le_of_lt h

theorem Advances.trans (h : Advances s s₁) (h' : Advances s₁ s₂) : Advances s s₂ := by
  rcases h with rfl | h
  · exact h'
  · exact Or.inr (Nat.lt_of_lt_of_le h h'.le)

theorem advances_put (s : FileStore) (p : Path) (text : String) (version : Nat) :
    Advances s (s.put p text version) := Or.inr (Nat.lt_succ_self _)

theorem advances_remove (s : FileStore) (p : Path) : Advances s (s.remove p).2 := by
  rw [remove]
  split
  · exact .refl s
  · exact Or.inr (Nat.lt_succ_self _)

theorem advances_rename (s : FileStore) (source target : Path) :
    Advances s (s.rename source target).2 := by
  rw [rename]
  split
  · exact .refl s
  · exact Or.inr (Nat.lt_succ_self _)

theorem advances_revise (s : FileStore) (p : Path) (text : String) (checked : Bool) :
    Advances s (s.revise p text checked).2 := by
  rw [revise]
  split
  · exact .refl s
  · split
    · exact .refl s
    · exact Or.inr (Nat.lt_succ_self _)

/-- An update that says that no text was stored may have moved the generation, with
the spelling of a path. -/
theorem advances_update (s : FileStore) (p : Path) (text : String) (checked : Bool) :
    Advances s (s.update p text checked).2 := by
  rw [update]
  split
  · exact advances_put s p text 0
  · rename_i file _
    have hrespell : Advances s (if file.path = p.normalize then s
        else (s.rename file.path p).2) := by
      split
      · exact .refl s
      · exact advances_rename s file.path p
    exact hrespell.trans (advances_revise _ p text checked)

end Advancing

end TypedLoader.FileStore
