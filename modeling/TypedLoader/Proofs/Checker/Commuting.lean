import TypedLoader.Proofs.Checker.Reported
import TypedLoader.Proofs.FileStore.Edits

namespace TypedLoader

open Std (ExtTreeMap)

theorem erase_comm {α : Type} (m : ExtTreeMap String α) (a b : String) :
    (m.erase a).erase b = (m.erase b).erase a := by
  refine ExtTreeMap.ext_getElem? fun key ↦ ?_
  rw [ExtTreeMap.getElem?_erase, ExtTreeMap.getElem?_erase, ExtTreeMap.getElem?_erase,
    ExtTreeMap.getElem?_erase]
  split <;> split <;> rfl

theorem Dependencies.remove_comm (d : Dependencies) (p q : Path) :
    (d.remove p).remove q = (d.remove q).remove p := by
  have hmemo {α : Type} (keep keep' : α → Bool) (m : Memo α) (a b : String) :
      Memo.retain keep' ((Memo.retain keep (m.erase a)).erase b) =
        Memo.retain keep ((Memo.retain keep' (m.erase b)).erase a) := by
    rw [← Memo.retain_erase, Memo.retain_comm, erase_comm, Memo.retain_erase]
  have hknown : (d.declarations.erase (d.key p)).erase (d.key q) =
      (d.declarations.erase (d.key q)).erase (d.key p) := by
    refine Std.ExtTreeSet.ext_mem fun key ↦ ?_
    simp only [Std.ExtTreeSet.mem_erase]
    exact and_left_comm
  exact (Dependencies.mk.injEq ..).mpr
    ⟨rfl, erase_comm d.edges _ _, hmemo _ _ d.modules _ _, hmemo _ _ d.types _ _, hknown⟩

/-- What a change of a file makes of a compilation. The mark depends on whether the store
has taken something over. -/
structure FileChange where
  file : Path
  entry : Option SourceFile → Edit
  mark : Bool → Option Validity → Option Validity
  deps : Dependencies → Dependencies

namespace FileChange

def update (file : Path) (text : String) (onlyKnown : Bool) : FileChange where
  file := file
  entry entry := if onlyKnown && entry.isNone then .keep entry else .update file text true entry
  mark stored mark := if stored then some .invalid else mark
  deps := id

def remove (file : Path) : FileChange where
  file := file
  entry := .remove
  mark _ _ := none
  deps d := d.remove file

def apply (x : FileChange) (c : Compilation) : Compilation :=
  let key := c.files.key x.file
  let (answer, files) := c.files.edit key x.entry
  { c with
    files
    marks := c.marks.alter key (x.mark answer)
    deps := x.deps c.deps
    built := if answer then none else c.built }

theorem apply_comm (x y : FileChange) {c : Compilation}
    (hkey : c.files.key x.file ≠ c.files.key y.file)
    (hdeps : y.deps (x.deps c.deps) = x.deps (y.deps c.deps)) :
    y.apply (x.apply c) = x.apply (y.apply c) := by
  let kx := c.files.key x.file
  let ky := c.files.key y.file
  obtain ⟨hy, hstore⟩ := c.files.edit_comm hkey x.entry y.entry
  obtain ⟨hx, -⟩ := c.files.edit_comm hkey.symm y.entry x.entry
  have hmarks := alter_comm c.marks hkey (x.mark (c.files.edit kx x.entry).1)
    (y.mark (c.files.edit ky y.entry).1)
  have hbuilt (a b : Bool) : (if b then none else if a then none else c.built) =
      if a then none else if b then none else c.built := by
    cases a <;> cases b <;> rfl
  have hfirst : y.apply (x.apply c) = ⟨c.options, ((c.files.edit kx x.entry).2.edit ky y.entry).2,
      y.deps (x.deps c.deps), (c.marks.alter kx (x.mark (c.files.edit kx x.entry).1)).alter ky
        (y.mark ((c.files.edit kx x.entry).2.edit ky y.entry).1),
      if ((c.files.edit kx x.entry).2.edit ky y.entry).1 then none
        else if (c.files.edit kx x.entry).1 then none else c.built⟩ := rfl
  have hsecond : x.apply (y.apply c) = ⟨c.options, ((c.files.edit ky y.entry).2.edit kx x.entry).2,
      x.deps (y.deps c.deps), (c.marks.alter ky (y.mark (c.files.edit ky y.entry).1)).alter kx
        (x.mark ((c.files.edit ky y.entry).2.edit kx x.entry).1),
      if ((c.files.edit ky y.entry).2.edit kx x.entry).1 then none
        else if (c.files.edit ky y.entry).1 then none else c.built⟩ := rfl
  rw [hfirst, hsecond, hstore, hdeps, hy, hx, hmarks, hbuilt]

end FileChange

namespace Request

/-- The request tells of a new text of a file, or of its removal. -/
inductive Changes : Request → Path → Prop
  | update (file : Path) (text : String) (onlyKnown : Bool) :
      Changes (.updateFile file text onlyKnown) file
  | remove (file : Path) : Changes (.removeFile file) file

/-- What a request that tells of a change makes of a compilation. -/
inductive Performs : Request → FileChange → Prop
  | update (file : Path) (text : String) (onlyKnown : Bool) :
      Performs (.updateFile file text onlyKnown) (.update file text onlyKnown)
  | remove (file : Path) : Performs (.removeFile file) (.remove file)

variable {r r' : Request} {x y : FileChange} {file : Path}

theorem Changes.performs (h : r.Changes file) : ∃ x, r.Performs x ∧ x.file = file := by
  cases h with
  | update file text onlyKnown => exact ⟨_, .update file text onlyKnown, rfl⟩
  | remove file => exact ⟨_, .remove file, rfl⟩

/-- Only removals look at what is known of the dependencies. -/
theorem Performs.deps_comm (hx : r.Performs x) (hy : r'.Performs y) (d : Dependencies) :
    y.deps (x.deps d) = x.deps (y.deps d) := by
  cases hx with
  | update => rfl
  | remove file =>
    cases hy with
    | update => rfl
    | remove file' => exact d.remove_comm file file'

end Request

namespace Session

variable {s : Session} {t : Started} {w : World} {r r' : Request} {x y : FileChange}

theorem updateFile_eq_apply {c : Compilation} (h : c.files.Kept) (file : Path) (text : String)
    (onlyKnown : Bool) :
    updateFile file text onlyKnown c = (FileChange.update file text onlyKnown).apply c := by
  have hhas : c.has file = (c.files.files[c.files.key file]?).isSome :=
    Std.ExtTreeMap.contains_eq_isSome_getElem?
  rw [FileChange.apply]
  by_cases hskip : (onlyKnown && !c.has file) = true
  · have hkeep : c.files.edit (c.files.key file) (FileChange.update file text onlyKnown).entry =
        (false, c.files) := by
      rw [← c.files.edit_keep (c.files.key file)]
      refine FileStore.edit_congr (if_pos ?_)
      rwa [hhas, Option.not_isSome] at hskip
    rw [updateFile, if_pos hskip]
    dsimp only [FileChange.update] at hkeep ⊢
    rw [hkeep]
    simp only [Bool.false_eq_true, if_false, alter_id]
    rfl
  · have hedit : c.files.edit (c.files.key file) (FileChange.update file text onlyKnown).entry =
        c.files.update file text true := by
      rw [FileStore.update_eq_edit h]
      refine FileStore.edit_congr (if_neg ?_)
      rwa [hhas, Option.not_isSome] at hskip
    rw [updateFile, if_neg hskip, Compilation.update]
    dsimp only [FileChange.update] at hedit ⊢
    rw [hedit]
    have hkey : (c.files.update file text true).2.key file = c.files.key file :=
      FileStore.key_eq_key_of_case (c.files.case_update file text true) file
    cases (c.files.update file text true).1 with
    | false =>
      simp only [Bool.false_eq_true, if_false, alter_id]
      rfl
    | true =>
      simp only [if_true, alter_const_some, Compilation.invalidate, hkey]
      rfl

theorem removeFile_eq_apply (c : Compilation) (file : Path) :
    removeFile file c = (FileChange.remove file).apply c := by
  have hedit := c.files.remove_eq_edit file
  rw [FileChange.apply]
  dsimp only [FileChange.remove]
  rw [← hedit, alter_const_none, removeFile, Compilation.remove]
  dsimp only [Prod.map, id, Compilation.forget]
  split <;> rfl

theorem handle_change (h : s.Tidy) (hs : s.started = some t) (hx : r.Performs x) :
    (handle w r).run s =
      ⟨.ok .null, ⟨some { t with compilation := x.apply t.compilation }⟩, []⟩ := by
  have hrun {f : Compilation → Compilation} (hf : f t.compilation = x.apply t.compilation)
      (hhandle : handle w r = onCompilation fun _ ↦ Action.modify f >>= fun _ ↦ pure .null) :
      (handle w r).run s =
        ⟨.ok .null, ⟨some { t with compilation := x.apply t.compilation }⟩, []⟩ := by
    rw [hhandle, Action.run, onCompilation, hs, ← hf]
    rfl
  cases hx with
  | update file text onlyKnown =>
    exact hrun (updateFile_eq_apply (h t hs).kept file text onlyKnown) rfl
  | remove file => exact hrun (removeFile_eq_apply t.compilation file) rfl

theorem run_changes (h : s.Tidy) (hs : s.started = some t) (hx : r.Performs x)
    (hy : r'.Performs y) (n n' : Nat) :
    answers w s [(n, r), (n', r')] =
        [Response.ofResult n (.ok .null), Response.ofResult n' (.ok .null)] ∧
      after w s [r, r'] = ⟨some { t with compilation := y.apply (x.apply t.compilation) }⟩ := by
  have hfirst := handle_change (w := w) h hs hx
  have htidy := h.handle w r
  rw [hfirst] at htidy
  have hsecond := handle_change (w := w) htidy rfl hy
  constructor
  · rw [answers, answers, answers, hfirst, hsecond]
  · rw [after, List.foldl_cons, List.foldl_cons, List.foldl_nil, hfirst, hsecond]

/-- Two requests that tell of changes of files with different keys may come in either order:
both are answered in the same way, and the session is the same after them. -/
theorem changes_commute (history : List (World × Request)) (w : World)
    (hs : (({} : Session).through history).started = some t) {p p' : Path} (hr : r.Changes p)
    (hr' : r'.Changes p') (hkey : t.compilation.files.key p ≠ t.compilation.files.key p')
    (n n' : Nat) :
    let s := ({} : Session).through history
    let done := Response.ofResult n (.ok .null)
    let done' := Response.ofResult n' (.ok .null)
    answers w s [(n, r), (n', r')] = [done, done'] ∧
      answers w s [(n', r'), (n, r)] = [done', done] ∧
      after w s [r, r'] = after w s [r', r] := by
  intro s done done'
  have htidy : s.Tidy := tidy_empty.through history
  obtain ⟨x, hx, rfl⟩ := hr.performs
  obtain ⟨y, hy, rfl⟩ := hr'.performs
  obtain ⟨hanswers, hafter⟩ := run_changes (w := w) htidy hs hx hy n n'
  obtain ⟨hanswers', hafter'⟩ := run_changes (w := w) htidy hs hy hx n' n
  refine ⟨hanswers, hanswers', ?_⟩
  rw [hafter, hafter', FileChange.apply_comm x y hkey (hx.deps_comm hy _)]

/-- A stored file comes with a new spelling of its path while another one is removed, where
paths are not told apart by case. -/
theorem changes_commute_respelled :
    let w := World.importing ⟨[]⟩
    let setup : Setup :=
      { compiler := ⟨"importing", "1"⟩, settings := { case := some .insensitive }, options := [] }
    let s := ({} : Session).through [(w, .init setup), (w, .updateFile ⟨"/a.ts"⟩ "/b.ts" false),
      (w, .updateFile ⟨"/b.ts"⟩ "" false)]
    let r := Request.updateFile ⟨"/A.ts"⟩ "" true
    let r' := Request.removeFile ⟨"/B.ts"⟩
    ∃ t, s.started = some t ∧
      t.compilation.files.key ⟨"/A.ts"⟩ ≠ t.compilation.files.key ⟨"/B.ts"⟩ ∧
      after w s [r, r'] = after w s [r', r] := by
  intro w setup s r r'
  let setUp := ({} : Session).through [(w, .init setup)]
  obtain ⟨t₀, hstart, hcase₀⟩ : ∃ t, setUp.started = some t ∧
      t.compilation.files.case = .insensitive := ⟨_, rfl, rfl⟩
  have hs : s = _ := (run_changes (w := w) (tidy_empty.through _) hstart
    (.update ⟨"/a.ts"⟩ "/b.ts" false) (.update ⟨"/b.ts"⟩ "" false) 0 0).2
  obtain ⟨t, hs, hcase⟩ : ∃ t, s.started = some t ∧ t.compilation.files.case = .insensitive :=
    ⟨_, congrArg Session.started hs, hcase₀⟩
  have hkey : t.compilation.files.key ⟨"/A.ts"⟩ ≠ t.compilation.files.key ⟨"/B.ts"⟩ := by
    rw [FileStore.key, FileStore.key, hcase]
    decide +kernel
  exact ⟨t, hs, hkey,
    (changes_commute _ w hs (.update ⟨"/A.ts"⟩ "" true) (.remove ⟨"/B.ts"⟩) hkey 1 2).2.2⟩

end Session

end TypedLoader
