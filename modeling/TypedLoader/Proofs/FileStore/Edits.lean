import TypedLoader.Proofs.FileStore.Entries

namespace TypedLoader

open Std (ExtTreeMap)

/-- What becomes of an entry, how far the counters move, and what is answered. -/
structure Edit where
  answer : Bool
  entry : Option SourceFile
  projectMoves : Nat := 0
  moves : Nat := 0

namespace Edit

def keep (entry : Option SourceFile) : Edit := ⟨false, entry, 0, 0⟩

/-- A spelling that is new moves both counters once, a text that is stored moves the
generation. -/
def update (p : Path) (text : String) (checked : Bool) : Option SourceFile → Edit
  | none => ⟨true, some ⟨p.normalize, text, 0⟩, 1, 1⟩
  | some file =>
    let respelled := if file.path = p.normalize then 0 else 1
    if checked = true ∧ file.text = text then
      ⟨false, some ⟨p.normalize, file.text, file.version⟩, respelled, respelled⟩
    else ⟨true, some ⟨p.normalize, text, file.version + 1⟩, respelled, respelled + 1⟩

def remove : Option SourceFile → Edit
  | none => keep none
  | some _ => ⟨true, none, 1, 1⟩

end Edit

section Altering

variable {α : Type} (m : ExtTreeMap String α) (key : String)

theorem alter_const_some (value : α) : m.alter key (fun _ ↦ some value) = m.insert key value := by
  refine ExtTreeMap.ext_getElem? fun key' ↦ ?_
  rw [ExtTreeMap.getElem?_alter, ExtTreeMap.getElem?_insert]

theorem alter_const_none : m.alter key (fun _ ↦ none) = m.erase key := by
  refine ExtTreeMap.ext_getElem? fun key' ↦ ?_
  rw [ExtTreeMap.getElem?_alter, ExtTreeMap.getElem?_erase]

theorem alter_id : m.alter key (fun value ↦ value) = m := by
  refine ExtTreeMap.ext_getElem? fun key' ↦ ?_
  rw [ExtTreeMap.getElem?_alter]
  split
  · rename_i hk
    rw [Std.LawfulEqCmp.compare_eq_iff_eq.1 hk]
  · rfl

theorem alter_comm {a b : String} (h : a ≠ b) (f g : Option α → Option α) :
    (m.alter a f).alter b g = (m.alter b g).alter a f := by
  refine ExtTreeMap.ext_getElem? fun key ↦ ?_
  simp only [ExtTreeMap.getElem?_alter, Std.LawfulEqCmp.compare_eq_iff_eq]
  by_cases ha : a = key
  · have hb : b ≠ key := fun hb ↦ h (ha.trans hb.symm)
    rw [if_pos ha, if_pos ha, if_neg hb, if_neg h.symm]
  · rw [if_neg ha, if_neg ha, if_neg h]

end Altering

namespace FileStore

def edit (s : FileStore) (key : String) (f : Option SourceFile → Edit) : Bool × FileStore :=
  let e := f s.files[key]?
  (e.answer, { s with
    files := s.files.alter key fun _ ↦ e.entry
    projectVersion := s.projectVersion + e.projectMoves
    generation := s.generation + e.moves })

section Editing

variable {s : FileStore} {p : Path}

theorem getElem?_edit (s : FileStore) (key key' : String) (f : Option SourceFile → Edit) :
    (s.edit key f).2.files[key']? =
      if key = key' then (f s.files[key]?).entry else s.files[key']? := by
  rw [edit, ExtTreeMap.getElem?_alter]
  simp only [Std.LawfulEqCmp.compare_eq_iff_eq]

theorem getElem?_edit_of_ne (s : FileStore) {key key' : String} (h : key ≠ key')
    (f : Option SourceFile → Edit) : (s.edit key f).2.files[key']? = s.files[key']? :=
  (s.getElem?_edit key key' f).trans (if_neg h)

theorem eq_edit {o : Bool × FileStore} {key : String} {f : Option SourceFile → Edit}
    (hanswer : o.1 = (f s.files[key]?).answer) (hcase : o.2.case = s.case)
    (hfiles : o.2.entries = Function.update s.entries key (f s.files[key]?).entry)
    (hproject : o.2.projectVersion = s.projectVersion + (f s.files[key]?).projectMoves)
    (hmoves : o.2.generation = s.generation + (f s.files[key]?).moves) : o = s.edit key f := by
  obtain ⟨answer, ⟨case, files, projectVersion, generation⟩⟩ := o
  have hmap : files = s.files.alter key fun _ ↦ (f s.files[key]?).entry := by
    refine ExtTreeMap.ext_getElem? fun key' ↦ (congrFun hfiles key').trans ?_
    rw [ExtTreeMap.getElem?_alter, Function.update_apply]
    simp only [Std.LawfulEqCmp.compare_eq_iff_eq, eq_comm (a := key')]
    rfl
  obtain rfl := hanswer
  obtain rfl := hcase
  obtain rfl := hproject
  obtain rfl := hmoves
  rw [hmap, edit]

theorem edit_congr {key : String} {f g : Option SourceFile → Edit}
    (h : f s.files[key]? = g s.files[key]?) : s.edit key f = s.edit key g := by
  rw [edit, edit, h]

/-- Edits of two keys find the entries that they would find without each other. -/
theorem edit_comm (s : FileStore) {a b : String} (h : a ≠ b) (f g : Option SourceFile → Edit) :
    ((s.edit a f).2.edit b g).1 = (s.edit b g).1 ∧
      ((s.edit a f).2.edit b g).2 = ((s.edit b g).2.edit a f).2 := by
  have ha : (s.edit b g).2.files[a]? = s.files[a]? := s.getElem?_edit_of_ne h.symm g
  have hb : (s.edit a f).2.files[b]? = s.files[b]? := s.getElem?_edit_of_ne h f
  refine ⟨congrArg (fun entry ↦ (g entry).answer) hb, ?_⟩
  rw [edit, hb, edit.eq_1 (s.edit b g).2, ha]
  dsimp only [edit]
  rw [alter_comm s.files h, Nat.add_right_comm _ (f s.files[a]?).projectMoves,
    Nat.add_right_comm _ (f s.files[a]?).moves]

theorem edit_keep (s : FileStore) (key : String) : s.edit key Edit.keep = (false, s) := by
  have hkeep : (false, s) = s.edit key Edit.keep :=
    eq_edit rfl rfl (Function.update_eq_self key s.entries).symm rfl rfl
  exact hkeep.symm

theorem counters_respelled {file : SourceFile} (h : s.Kept) (hf : s.get? p = some file) :
    let moves := if file.path = p.normalize then 0 else 1
    (s.respelled p).projectVersion = s.projectVersion + moves ∧
      (s.respelled p).generation = s.generation + moves := by
  obtain ⟨hkey, hg⟩ := h.of_get? hf
  rw [respelled, hf]
  by_cases hp : file.path = p.normalize
  · simp only [hp, if_true]
    exact ⟨rfl, rfl⟩
  · simp only [hp, if_false]
    rw [rename, hg]
    exact ⟨rfl, rfl⟩

theorem counters_revise {file : SourceFile} (hf : s.get? p = some file) (text : String)
    (checked : Bool) : (s.revise p text checked).2.projectVersion = s.projectVersion ∧
      (s.revise p text checked).2.generation =
        s.generation + if checked = true ∧ file.text = text then 0 else 1 := by
  rw [revise, hf]
  simp only [Bool.and_eq_true, beq_iff_eq]
  split <;> exact ⟨rfl, rfl⟩

theorem update_eq_edit (h : s.Kept) (p : Path) (text : String) (checked : Bool) :
    s.update p text checked = s.edit (s.key p) (Edit.update p text checked) := by
  have hentries := entries_update h p text checked
  have hkey : s.entries (s.case.key p) = s.get? p := rfl
  rw [Entries.update, hkey] at hentries
  have hlookup : s.files[s.key p]? = s.get? p := rfl
  cases hf : s.get? p with
  | none =>
    rw [hf] at hentries hlookup
    have hadd : s.update p text checked = (true, s.add p text) := by
      rw [update, hf]
    refine eq_edit ?_ (case_update ..) ?_ ?_ ?_
    · rw [hlookup, hadd]
      rfl
    · rw [hlookup]
      exact congrArg Prod.snd hentries
    · rw [hlookup, hadd]
      rfl
    · rw [hlookup, hadd]
      rfl
  | some file =>
    rw [hf] at hentries hlookup
    have hupdate : s.update p text checked = (s.respelled p).revise p text checked := by
      rw [update_eq_respelled, hf]
      rfl
    have hfound : (s.respelled p).get? p = some { file with path := p.normalize } := by
      rw [get?_respelled h, hf]
      rfl
    obtain ⟨hrespelled, hmoved⟩ := counters_respelled h hf
    obtain ⟨hrevised, hgeneration⟩ := counters_revise hfound text checked
    have hanswer := congrArg Prod.fst hentries
    have hfiles := congrArg Prod.snd hentries
    have hproject := hrevised.trans hrespelled
    dsimp only [Prod.map_fst, Prod.map_snd, id] at hanswer hfiles hgeneration
    rw [hmoved, Nat.add_assoc] at hgeneration
    rw [← hupdate] at hproject hgeneration
    by_cases hsame : checked = true ∧ file.text = text
    · rw [if_pos hsame] at hanswer hfiles hgeneration
      refine eq_edit ?_ (case_update ..) ?_ ?_ ?_ <;> rw [hlookup, Edit.update, if_pos hsame]
      · exact hanswer
      · exact hfiles
      · exact hproject
      · exact hgeneration
    · rw [if_neg hsame] at hanswer hfiles hgeneration
      refine eq_edit ?_ (case_update ..) ?_ ?_ ?_ <;> rw [hlookup, Edit.update, if_neg hsame]
      · exact hanswer
      · exact hfiles
      · exact hproject
      · exact hgeneration

theorem remove_eq_edit (s : FileStore) (p : Path) :
    (s.remove p).map Option.isSome id = s.edit (s.key p) Edit.remove := by
  have hentries : (s.remove p).2.entries = s.entries.take s.case p :=
    congrArg Prod.snd (entries_remove s p)
  have hlookup : s.files[s.key p]? = s.get? p := rfl
  have hcase := case_remove s p
  refine eq_edit ?_ hcase ?_ ?_ ?_
  · rw [hlookup, remove]
    cases s.get? p <;> rfl
  · refine hentries.trans ?_
    rw [hlookup]
    cases s.get? p <;> rfl
  · rw [hlookup, remove]
    cases s.get? p <;> rfl
  · rw [hlookup, remove]
    cases s.get? p <;> rfl

end Editing

end FileStore

end TypedLoader
