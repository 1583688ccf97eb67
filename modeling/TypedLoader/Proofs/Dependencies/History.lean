import Mathlib.Data.List.DropRight
import TypedLoader.Proofs.Analysis.Links

namespace TypedLoader.Dependencies

inductive Operation where
  | addEdge (file target : Path) (kind : EdgeKind)
  | addModule (file : Path) (name : String) (r : ResolvedModule)
  | addTypes (file : Path) (name : String) (r : ResolvedTypes)
  | clear (file : Path)
  | remove (file : Path)
  | mark (p : Path)
  | unmark (p : Path)

namespace Operation

def run (d : Dependencies) : Operation → Dependencies
  | addEdge file target kind => d.addEdge file target kind
  | addModule file name r => d.addModule file name r
  | addTypes file name r => d.addTypes file name r
  | clear file => d.clear file
  | remove file => d.remove file
  | mark p => (d.mark p).2
  | unmark p => (d.unmark p).2

section Keyed

variable (case : PathCase) (key : String)

def edge? : Operation → Option Edge
  | addEdge file target kind => if case.key file = key then some ⟨target, kind⟩ else none
  | _ => none

def removes : Operation → Bool
  | remove file => case.key file == key
  | _ => false

def drops : Operation → Bool
  | clear file => case.key file == key
  | op => op.removes case key

def marks : Operation → Bool
  | mark p => case.key p == key
  | _ => false

def unmarks : Operation → Bool
  | unmark p => case.key p == key
  | op => op.removes case key

end Keyed

end Operation

def after (case : PathCase) (log : List Operation) : Dependencies :=
  log.foldl Operation.run { case }

def since (ends : Operation → Bool) (log : List Operation) : List Operation :=
  log.rtakeWhile fun op ↦ !ends op

def Stands (does undoes : Operation → Prop) (log : List Operation) : Prop :=
  ∃ before op later, log = before ++ op :: later ∧ does op ∧ ∀ op' ∈ later, ¬undoes op'

structure Memory (α : Type) where
  memo : Dependencies → Memo α
  target : α → Path
  entry? : Operation → Option (Path × String × α)

namespace Memory

variable {α : Type} (M : Memory α)

def modules : Memory ResolvedModule where
  memo := Dependencies.modules
  target := ResolvedModule.file
  entry?
    | .addModule file name r => some (file, name, r)
    | _ => none

def types : Memory ResolvedTypes where
  memo := Dependencies.types
  target := ResolvedTypes.file
  entry?
    | .addTypes file name r => some (file, name, r)
    | _ => none

def Adds (case : PathCase) (key name : String) (r : α) (op : Operation) : Prop :=
  ∃ file, M.entry? op = some (file, name, r) ∧ case.key file = key

/-- A resolution is lost to a later one, with its file, or with the file that it leads to. -/
def Ends (case : PathCase) (key name : String) (r : α) (op : Operation) : Prop :=
  (∃ r', M.Adds case key name r' op) ∨ op.drops case key ∨ op.removes case (case.key (M.target r))

end Memory

section Logging

variable {does undoes : Operation → Prop} {log : List Operation} {op : Operation}

theorem not_stands_nil : ¬Stands does undoes [] := by
  rintro ⟨before, op, later, h, -, -⟩
  cases before <;> cases h

theorem stands_concat : Stands does undoes (log ++ [op]) ↔
    does op ∨ Stands does undoes log ∧ ¬undoes op := by
  constructor
  · rintro ⟨before, op', later, h, hdoes, hkept⟩
    -- the operation that counts is the new one or an older one
    rcases List.eq_nil_or_concat later with rfl | ⟨later, last, rfl⟩
    · obtain ⟨-, rfl⟩ := List.append_inj' h rfl |>.imp id List.singleton_inj.1
      exact Or.inl hdoes
    · rw [List.concat_eq_append, ← List.cons_append, ← List.append_assoc] at h
      rw [List.concat_eq_append] at hkept
      obtain ⟨rfl, hlast⟩ := List.append_inj' h rfl
      obtain rfl := List.singleton_inj.1 hlast
      obtain ⟨hkept, hop⟩ := List.forall_mem_append.1 hkept
      exact Or.inr ⟨⟨before, op', later, rfl, hdoes, hkept⟩, hop _ (List.mem_singleton_self _)⟩
  · rintro (hdoes | ⟨⟨before, op', later, rfl, hdoes, hkept⟩, hop⟩)
    · exact ⟨log, op, [], rfl, hdoes, by simp⟩
    · refine ⟨before, op', later ++ [op], by rw [List.append_assoc]; rfl, hdoes, ?_⟩
      exact List.forall_mem_append.2 ⟨hkept, List.forall_mem_singleton.2 hop⟩

theorem since_concat (ends : Operation → Bool) (log : List Operation) (op : Operation) :
    since ends (log ++ [op]) = if ends op then [] else since ends log ++ [op] := by
  rw [since, List.rtakeWhile_concat, since]
  cases ends op <;> rfl

theorem after_concat (case : PathCase) (log : List Operation) (op : Operation) :
    after case (log ++ [op]) = op.run (after case log) := by
  rw [after, List.foldl_append]
  rfl

end Logging

section Running

variable {case : PathCase} {d : Dependencies}

theorem case_run (d : Dependencies) (op : Operation) : (op.run d).case = d.case := by
  cases op <;> rfl

theorem case_after (case : PathCase) (log : List Operation) : (after case log).case = case := by
  induction log using List.reverseRecOn with
  | nil => rfl
  | append_singleton log op ih => rw [after_concat, case_run, ih]

theorem edgesAt_addEdge (d : Dependencies) (file target : Path) (kind : EdgeKind) (key : String) :
    (d.addEdge file target kind).edgesAt key =
      if d.case.key file = key then d.edgesAt key ++ [⟨target, kind⟩] else d.edgesAt key := by
  rw [edgesAt, Analysis.getElem?_edges_addEdge, Dependencies.key]
  split
  · rename_i hk
    rw [edgesOf, Dependencies.key, hk]
    rfl
  · rfl

theorem edgesAt_erase (d : Dependencies) (file : Path) (key : String) :
    (d.edges.erase (d.key file))[key]?.getD [] =
      if d.case.key file = key then [] else d.edgesAt key := by
  simp only [Std.ExtTreeMap.getElem?_erase, Std.LawfulEqCmp.compare_eq_iff_eq, Dependencies.key]
  split <;> rfl

theorem edgesAt_run (hcase : d.case = case) (op : Operation) (key : String) :
    (op.run d).edgesAt key =
      if op.drops case key then [] else d.edgesAt key ++ (op.edge? case key).toList := by
  subst hcase
  have hkeep : d.edgesAt key = d.edgesAt key ++ [] := (List.append_nil _).symm
  have herase (file : Path) : (if d.case.key file = key then [] else d.edgesAt key) =
      if (d.case.key file == key) = true then [] else d.edgesAt key ++ [] := by
    rw [List.append_nil]
    simp only [beq_iff_eq]
  cases op with
  | addEdge file target kind =>
    refine (edgesAt_addEdge d file target kind key).trans ?_
    simp only [Operation.drops, Operation.removes, Operation.edge?, Bool.false_eq_true, if_false]
    split
    · rfl
    · exact hkeep
  | clear file => exact (edgesAt_erase d file key).trans (herase file)
  | remove file => exact (edgesAt_erase d file key).trans (herase file)
  | addModule file name r => exact hkeep
  | addTypes file name r => exact hkeep
  | mark p => exact hkeep
  | unmark p => exact hkeep

end Running

section Resolving

variable {α : Type} {M : Memory α} {d : Dependencies} {case : PathCase}

def Operation.forget (d : Dependencies) (target : α → Path) (m : Memo α) : Operation → Memo α
  | clear file => m.erase (d.key file)
  | remove file => Memo.retain (fun r ↦ d.key (target r) != d.key file) (m.erase (d.key file))
  | _ => m

theorem get?_forget (hcase : d.case = case) (target : α → Path) (m : Memo α) (op : Operation)
    (key name : String) (r : α) : (op.forget d target m).get? key name = some r ↔
      m.get? key name = some r ∧ ¬(op.drops case key ∨ op.removes case (case.key (target r))) := by
  subst hcase
  have herase (file : Path) : Memo.get? (m.erase (d.key file)) key name = some r ↔
      m.get? key name = some r ∧ d.case.key file ≠ key := by
    rw [Memo.get?_erase, Dependencies.key]
    by_cases hk : d.case.key file = key <;> simp [hk]
  cases op with
  | clear file =>
    refine (herase file).trans ?_
    simp only [Operation.drops, Operation.removes, Bool.false_eq_true, or_false, beq_iff_eq, ne_eq]
  | remove file =>
    rw [Operation.forget, Memo.get?_retain, Option.filter_eq_some_iff, herase, and_assoc,
      bne_iff_ne, ne_comm (a := d.key (target r))]
    simp only [Operation.drops, Operation.removes, beq_iff_eq, not_or]
    rfl
  | _ => simp [Operation.forget, Operation.drops, Operation.removes]

namespace Memory

def Lawful (M : Memory α) : Prop :=
  ∀ d op, M.memo (op.run d) =
    match M.entry? op with
    | some (file, name, r) => (op.forget d M.target (M.memo d)).add (d.key file) name r
    | none => op.forget d M.target (M.memo d)

theorem lawful_modules : modules.Lawful := fun _ op ↦ by cases op <;> rfl

theorem lawful_types : types.Lawful := fun _ op ↦ by cases op <;> rfl

theorem Lawful.get?_run (h : M.Lawful) (hcase : d.case = case) (op : Operation)
    (key name : String) (r : α) : (M.memo (op.run d)).get? key name = some r ↔
      M.Adds case key name r op ∨
        (M.memo d).get? key name = some r ∧ ¬M.Ends case key name r op := by
  subst hcase
  have hforget := get?_forget (rfl : d.case = d.case) M.target (M.memo d) op key name r
  rw [h, Ends]
  cases hentry : M.entry? op with
  | none => simp [hforget, Adds, hentry]
  | some entry =>
    obtain ⟨file, name', r'⟩ := entry
    by_cases hhere : d.case.key file = key ∧ name' = name
    · obtain ⟨rfl, rfl⟩ := hhere
      have hadds (r₁ : α) : M.Adds d.case (d.case.key file) name' r₁ op ↔ r' = r₁ := by
        simp [Adds, hentry]
      simp only [hadds, exists_eq', true_or, not_true_eq_false, and_false, or_false]
      rw [← Dependencies.key, Memo.get?_add, if_pos rfl, Option.some.injEq]
    · have hadds (r₁ : α) : ¬M.Adds d.case key name r₁ op := by
        rintro ⟨file', he, hk⟩
        obtain ⟨rfl, rfl, -⟩ : file = file' ∧ name' = name ∧ r' = r₁ := by simpa [hentry] using he
        exact hhere ⟨hk, rfl⟩
      simp only [hadds, exists_false, false_or]
      rw [← hforget]
      by_cases hk : d.key file = key
      · subst hk
        rw [Memo.get?_add, if_neg fun hn ↦ hhere ⟨rfl, hn⟩]
      · rw [Memo.get?_add_of_ne name' name r' (Ne.symm hk)]

end Memory

end Resolving

/-- What one operation does to an answer tells what a log makes of it. -/
theorem holds_after_iff {P : Dependencies → Prop} {does undoes : Operation → Prop}
    {case : PathCase} (hstart : ¬P { case })
    (hstep : ∀ d op, d.case = case → (P (op.run d) ↔ does op ∨ P d ∧ ¬undoes op))
    (log : List Operation) : P (after case log) ↔ Stands does undoes log := by
  induction log using List.reverseRecOn with
  | nil => exact iff_of_false hstart not_stands_nil
  | append_singleton log op ih =>
    rw [after_concat, hstep _ op (case_after case log), stands_concat, ih]

theorem mem_declarations_run {d : Dependencies} {case : PathCase} (hcase : d.case = case)
    (op : Operation) (key : String) : key ∈ (op.run d).declarations ↔
      op.marks case key ∨ key ∈ d.declarations ∧ ¬op.unmarks case key := by
  subst hcase
  have herase (file : Path) : key ∈ d.declarations.erase (d.key file) ↔
      key ∈ d.declarations ∧ d.case.key file ≠ key := by
    rw [Std.ExtTreeSet.mem_erase, Ne, Std.LawfulEqCmp.compare_eq_iff_eq, and_comm]
    rfl
  cases op with
  | mark p =>
    rw [Operation.run, Analysis.mem_declarations_mark, Dependencies.key]
    simp [Operation.marks, Operation.unmarks, Operation.removes, or_comm]
  | unmark p =>
    refine (herase p).trans ?_
    simp [Operation.marks, Operation.unmarks]
  | remove file =>
    refine (herase file).trans ?_
    simp [Operation.marks, Operation.unmarks, Operation.removes]
  | addEdge file target kind =>
    simp [Operation.run, addEdge, Operation.marks, Operation.unmarks, Operation.removes]
  | addModule file name r =>
    simp [Operation.run, addModule, Operation.marks, Operation.unmarks, Operation.removes]
  | addTypes file name r =>
    simp [Operation.run, addTypes, Operation.marks, Operation.unmarks, Operation.removes]
  | clear file =>
    simp [Operation.run, Dependencies.clear, Operation.marks, Operation.unmarks, Operation.removes]

theorem edgesAt_after (case : PathCase) (log : List Operation) (key : String) :
    (after case log).edgesAt key =
      (since (·.drops case key) log).filterMap (·.edge? case key) := by
  induction log using List.reverseRecOn with
  | nil =>
    have hempty : (∅ : Std.ExtTreeMap String (List Edge))[key]? = none :=
      Std.ExtTreeMap.getElem?_empty
    rw [after, List.foldl_nil, edgesAt, hempty]
    rfl
  | append_singleton log op ih =>
    rw [after_concat, edgesAt_run (case_after case log), since_concat, ih]
    split
    · rfl
    · rw [List.filterMap_append, List.filterMap_cons]
      cases op.edge? case key <;> rfl

theorem Memory.get?_after {α : Type} {M : Memory α} (h : M.Lawful) {case : PathCase}
    {key name : String} (hstart : (M.memo { case }).get? key name = none) (log : List Operation)
    (r : α) : (M.memo (after case log)).get? key name = some r ↔
      Stands (M.Adds case key name r) (M.Ends case key name r) log := by
  refine holds_after_iff (P := fun d ↦ (M.memo d).get? key name = some r) ?_ ?_ log
  · rw [hstart]
    exact nofun
  · exact fun d op hcase ↦ h.get?_run hcase op key name r

/-- The edges of a file are those added since it was last cleared or removed, oldest first. A
name has the resolution that was added last for it, unless the file has been cleared or removed
since, or the file that the resolution leads to has been removed. A declaration file is known
when it has been marked, and neither unmarked nor removed since. -/
theorem answers_from_history (case : PathCase) (log : List Operation) :
    let d := after case log
    (∀ file, d.edgesOf file =
      (since (·.drops case (case.key file)) log).filterMap (·.edge? case (case.key file))) ∧
    (∀ file name r, d.moduleOf? file name = some r ↔
      Stands (Memory.modules.Adds case (case.key file) name r)
        (Memory.modules.Ends case (case.key file) name r) log) ∧
    (∀ file name r, d.typesOf? file name = some r ↔
      Stands (Memory.types.Adds case (case.key file) name r)
        (Memory.types.Ends case (case.key file) name r) log) ∧
    ∀ p, d.isKnown p = true ↔
      Stands (·.marks case (case.key p) = true) (·.unmarks case (case.key p) = true) log := by
  intro d
  have hkey (p : Path) : d.key p = case.key p := by
    rw [Dependencies.key, case_after]
  have hempty {α : Type} (key name : String) : Memo.get? (∅ : Memo α) key name = none := by
    rw [Memo.get?, Std.ExtTreeMap.getElem?_empty]
    rfl
  refine ⟨fun file ↦ ?_, fun file name r ↦ ?_, fun file name r ↦ ?_, fun p ↦ ?_⟩
  · rw [edgesOf, hkey, edgesAt_after]
  · rw [moduleOf?, hkey]
    exact Memory.get?_after Memory.lawful_modules (hempty _ _) log r
  · rw [typesOf?, hkey]
    exact Memory.get?_after Memory.lawful_types (hempty _ _) log r
  · rw [isKnown, Std.ExtTreeSet.contains_iff_mem, hkey]
    exact holds_after_iff (P := fun d ↦ case.key p ∈ d.declarations) Std.ExtTreeSet.not_mem_empty
      (fun d op hcase ↦ mem_declarations_run hcase op _) log

end TypedLoader.Dependencies
