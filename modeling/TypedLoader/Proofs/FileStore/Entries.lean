import Mathlib.Logic.Function.Basic
import TypedLoader.Proofs.FileStore.History
import TypedLoader.Proofs.Path.Order

namespace TypedLoader

abbrev Entries := String → Option SourceFile

namespace Entries

variable (case : PathCase) (m : Entries)

def place (p : Path) (text : String) (version : Nat) : Entries :=
  Function.update m (case.key p) (some ⟨p.normalize, text, version⟩)

def take (p : Path) : Entries := Function.update m (case.key p) none

def update (p : Path) (text : String) (checked : Bool) : Bool × Entries :=
  match m (case.key p) with
  | none => (true, m.place case p text 0)
  | some file =>
    if checked = true ∧ file.text = text then (false, m.place case p file.text file.version)
    else (true, m.place case p text (file.version + 1))

def remove (p : Path) : Option SourceFile × Entries := (m (case.key p), m.take case p)

def rename (source target : Path) : Bool × Entries :=
  match m (case.key source) with
  | none => (false, m)
  | some file => (true, (m.take case source).place case target file.text file.version)

def apply (m : Entries) : FileStore.Change → Entries
  | .add p text => m.place case p text 0
  | .update p text checked => (m.update case p text checked).2
  | .remove p => (m.remove case p).2
  | .rename source target => (m.rename case source target).2

def Spelled : Prop :=
  ∀ key file, m key = some file → case.key file.path = key ∧ file.path.normalize = file.path

variable {case m}

theorem Spelled.place (h : m.Spelled case) (p : Path) (text : String) (version : Nat) :
    (m.place case p text version).Spelled case := by
  intro key file hf
  rw [Entries.place, Function.update_apply] at hf
  split at hf
  · rename_i hk
    obtain rfl := Option.some.inj hf
    exact ⟨(case.key_normalize p).trans hk.symm, p.normalize_normalize⟩
  · exact h key file hf

theorem Spelled.take (h : m.Spelled case) (p : Path) : (m.take case p).Spelled case := by
  intro key file hf
  rw [Entries.take, Function.update_apply] at hf
  split at hf
  · cases hf
  · exact h key file hf

theorem Spelled.apply (h : m.Spelled case) (change : FileStore.Change) :
    (m.apply case change).Spelled case := by
  cases change with
  | add p text => exact h.place p text 0
  | update p text checked =>
    rw [Entries.apply, Entries.update]
    split
    · exact h.place p text 0
    · split <;> exact h.place p _ _
  | remove p => exact h.take p
  | rename source target =>
    rw [Entries.apply, Entries.rename]
    split
    · exact h
    · exact (h.take source).place target _ _

end Entries

namespace FileStore

def Change.keys (case : PathCase) : Change → List String
  | add p _ | update p _ _ | remove p => [case.key p]
  | rename source target => [case.key source, case.key target]

end FileStore

theorem Entries.apply_of_not_mem (case : PathCase) (m : Entries) (change : FileStore.Change)
    {key : String} (h : key ∉ change.keys case) : m.apply case change key = m key := by
  cases change with
  | add p text => exact Function.update_of_ne (List.ne_of_not_mem_cons h) ..
  | update p text checked =>
    have hk : key ≠ case.key p := List.ne_of_not_mem_cons h
    rw [apply, update]
    split
    · exact Function.update_of_ne hk ..
    · split <;> exact Function.update_of_ne hk ..
  | remove p => exact Function.update_of_ne (List.ne_of_not_mem_cons h) ..
  | rename source target =>
    have hs : key ≠ case.key source := List.ne_of_not_mem_cons h
    have ht : key ≠ case.key target := List.ne_of_not_mem_cons (List.not_mem_of_not_mem_cons h)
    rw [apply, rename]
    split
    · rfl
    · exact (Function.update_of_ne ht ..).trans (Function.update_of_ne hs ..)

namespace FileStore

def entries (s : FileStore) : Entries := fun key ↦ s.files[key]?

theorem entries_put (s : FileStore) (p : Path) (text : String) (version : Nat) :
    (s.put p text version).entries = s.entries.place s.case p text version := by
  funext key
  rw [entries, getElem?_put, Entries.place, Function.update_apply]
  simp only [eq_comm (a := key)]
  rfl

theorem entries_take (s : FileStore) (p : Path) :
    ({ s with files := s.files.erase (s.key p) } : FileStore).entries =
      s.entries.take s.case p := by
  funext key
  rw [entries, Entries.take, Function.update_apply, Std.ExtTreeMap.getElem?_erase]
  simp only [Std.LawfulEqCmp.compare_eq_iff_eq, eq_comm (a := key)]
  rfl

theorem entries_remove (s : FileStore) (p : Path) :
    (s.remove p).map id entries = s.entries.remove s.case p := by
  rw [remove]
  split
  · rename_i hnone
    have hkey : s.entries (s.case.key p) = none := hnone
    rw [Entries.remove, Entries.take, hkey, ← hkey, Function.update_eq_self, hkey]
    rfl
  · rename_i file hf
    have hkey : s.entries (s.case.key p) = some file := hf
    rw [Entries.remove, hkey, ← entries_take]
    rfl

theorem entries_rename (s : FileStore) (source target : Path) :
    (s.rename source target).map id entries = s.entries.rename s.case source target := by
  have hkey : s.entries (s.case.key source) = s.get? source := rfl
  rw [rename, Entries.rename, hkey]
  cases s.get? source with
  | none => rfl
  | some file =>
    dsimp only
    rw [← entries_take]
    exact congrArg (Prod.mk true) (entries_put ..)

theorem entries_revise {s : FileStore} {p : Path} {file : SourceFile} (hf : s.get? p = some file)
    (text : String) (checked : Bool) : (s.revise p text checked).map id entries =
      if checked = true ∧ file.text = text then (false, s.entries)
      else (true, Function.update s.entries (s.key p)
        (some { file with text, version := file.version + 1 })) := by
  rw [revise, hf]
  simp only [Bool.and_eq_true, beq_iff_eq]
  split
  · rfl
  · refine congrArg (Prod.mk true) (funext fun key ↦ ?_)
    rw [entries, Function.update_apply, Std.ExtTreeMap.getElem?_insert]
    simp only [Std.LawfulEqCmp.compare_eq_iff_eq, eq_comm (a := key)]
    rfl

/-- A store in which a path that is stored has the spelling that is given. -/
def respelled (s : FileStore) (p : Path) : FileStore :=
  match s.get? p with
  | none => s
  | some file => if file.path = p.normalize then s else (s.rename file.path p).2

theorem update_eq_respelled (s : FileStore) (p : Path) (text : String) (checked : Bool) :
    s.update p text checked = if (s.get? p).isSome then (s.respelled p).revise p text checked
      else (true, s.add p text) := by
  rw [update, respelled]
  cases s.get? p <;> rfl

theorem entries_respelled {s : FileStore} (h : s.Kept) {p : Path} {file : SourceFile}
    (hf : s.get? p = some file) : (s.respelled p).key p = s.key p ∧
      (s.respelled p).entries = s.entries.place s.case p file.text file.version := by
  obtain ⟨hk, hfiles⟩ := getElem?_respell h hf
  rw [respelled, hf]
  refine ⟨hk, funext fun key ↦ ?_⟩
  rw [Entries.place, Function.update_apply]
  refine (hfiles key).trans ?_
  simp only [eq_comm (a := key)]
  rfl

theorem get?_respelled {s : FileStore} (h : s.Kept) (p : Path) :
    (s.respelled p).get? p = (s.get? p).map fun file ↦ { file with path := p.normalize } := by
  cases hf : s.get? p with
  | none =>
    rw [respelled, hf]
    exact hf
  | some file =>
    obtain ⟨hk, hentries⟩ := entries_respelled h hf
    rw [get?, hk]
    refine (congrFun hentries (s.key p)).trans ?_
    exact Function.update_self ..

theorem entries_update {s : FileStore} (h : s.Kept) (p : Path) (text : String) (checked : Bool) :
    (s.update p text checked).map id entries = s.entries.update s.case p text checked := by
  have hkey : s.entries (s.case.key p) = s.get? p := rfl
  rw [update_eq_respelled, Entries.update, hkey]
  cases hf : s.get? p with
  | none => exact congrArg (Prod.mk true) (entries_put s p text 0)
  | some file =>
    obtain ⟨hk, hentries⟩ := entries_respelled h hf
    have hfound : (s.respelled p).get? p = some { file with path := p.normalize } := by
      rw [get?_respelled h, hf]
      rfl
    refine (entries_revise hfound text checked).trans ?_
    rw [hentries, hk]
    dsimp only
    split
    · rfl
    · exact congrArg (Prod.mk true) (Function.update_idem ..)

theorem kept_of_spelled {s : FileStore} (h : s.entries.Spelled s.case) : s.Kept :=
  fun key file hf ↦ (h key file hf).1

theorem case_apply (s : FileStore) (change : Change) : (change.apply s).case = s.case := by
  cases change with
  | add p text => rfl
  | update p text checked => exact case_update s p text checked
  | remove p => exact case_remove s p
  | rename source target => exact case_rename s source target

theorem entries_apply {s : FileStore} (h : s.Kept) (change : Change) :
    (change.apply s).entries = s.entries.apply s.case change := by
  cases change with
  | add p text => exact entries_put s p text 0
  | update p text checked => exact congrArg Prod.snd (entries_update h p text checked)
  | remove p => exact congrArg Prod.snd (entries_remove s p)
  | rename source target => exact congrArg Prod.snd (entries_rename s source target)

theorem spelled_through {s : FileStore} {case : PathCase} (hc : s.case = case)
    (h : s.entries.Spelled case) (changes : List Change) :
    (s.through changes).case = case ∧ (s.through changes).entries.Spelled case := by
  induction changes generalizing s with
  | nil => exact ⟨hc, h⟩
  | cons change rest ih =>
    subst hc
    refine ih (case_apply s change) ?_
    rw [entries_apply (kept_of_spelled h)]
    exact h.apply change

theorem nodup_keys {s : FileStore} (h : s.Kept) : (s.paths.map s.key).Nodup := by
  have hkeys : (s.all.map (·.path)).map s.key = s.files.keys := by
    rw [all, List.map_map, List.map_map, ← Std.ExtTreeMap.map_fst_toList_eq_keys]
    refine List.map_congr_left fun entry hm ↦ ?_
    exact h entry.1 entry.2 (Std.ExtTreeMap.mem_toList_iff_getElem?_eq_some.1 hm)
  refine (List.Perm.map s.key (List.mergeSort_perm ..)).nodup_iff.2 ?_
  rw [hkeys]
  exact Std.ExtTreeMap.nodup_keys

theorem pairwise_paths {s : FileStore} (h : s.Kept) :
    s.paths.Pairwise fun p q ↦ p.compare q = .lt := by
  have hdistinct : s.paths.Pairwise fun p q ↦ s.key p ≠ s.key q :=
    List.pairwise_map.1 (nodup_keys h)
  refine ((Path.pairwise_sort _).and hdistinct).imp fun {p q} ⟨hle, hne⟩ ↦ ?_
  cases hc : p.compare q with
  | lt => rfl
  | eq =>
    refine absurd ?_ hne
    rw [key, key, PathCase.key, PathCase.key, Path.normalize_eq_of_compare hc]
  | gt =>
    rw [hc] at hle
    cases hle

/-- A store that has come about by any run of changes is the map from keys to files that its
calls describe. Its keys are those of the paths in it, which have their normal form and are
listed in order, one spelling for each key; each call answers and changes as the one on the
map, and leaves the keys it does not name; the lookup of an update after respelling finds
the file that the first one found. -/
theorem refines_entries (case : PathCase) (changes : List Change) :
    let s := ({ case } : FileStore).through changes
    (∀ (key : String) (file : SourceFile), s.files[key]? = some file →
      case.key file.path = key ∧ file.path.normalize = file.path) ∧
    (∀ p, p ∈ s.paths ↔ ∃ (key : String) (file : SourceFile),
      s.files[key]? = some file ∧ file.path = p) ∧
    s.paths.Pairwise (fun p q ↦ p.compare q = .lt) ∧ (s.paths.map case.key).Nodup ∧
    (∀ p text, (s.add p text).entries = s.entries.place case p text 0) ∧
    (∀ p text checked,
      (s.update p text checked).map id entries = s.entries.update case p text checked) ∧
    (∀ p, (s.remove p).map id entries = s.entries.remove case p) ∧
    (∀ source target,
      (s.rename source target).map id entries = s.entries.rename case source target) ∧
    (∀ (change : Change) (key : String), key ∉ change.keys case →
      (change.apply s).files[key]? = s.files[key]?) ∧
    (∀ p text checked, s.update p text checked =
      if (s.get? p).isSome then (s.respelled p).revise p text checked else (true, s.add p text)) ∧
    ∀ p, (s.respelled p).get? p = (s.get? p).map fun file ↦ { file with path := p.normalize } := by
  intro s
  have hempty : ({ case } : FileStore).entries.Spelled case := by
    intro key file hf
    rw [entries, Std.ExtTreeMap.getElem?_empty] at hf
    cases hf
  obtain ⟨hcase, hspelled⟩ : s.case = case ∧ s.entries.Spelled case :=
    spelled_through rfl hempty changes
  clear_value s
  subst hcase
  have hkept : s.Kept := kept_of_spelled hspelled
  refine ⟨hspelled, mem_paths s, pairwise_paths hkept, nodup_keys hkept,
    fun p text ↦ entries_put s p text 0, entries_update hkept, entries_remove s,
    entries_rename s, fun change key hk ↦ ?_, update_eq_respelled s, get?_respelled hkept⟩
  have happly := congrFun (entries_apply hkept change) key
  exact happly.trans (s.entries.apply_of_not_mem s.case change hk)

end FileStore

end TypedLoader
