import TypedLoader.Diagnostic.Report
import TypedLoader.Proofs.LineMap

namespace TypedLoader

namespace MessageChain

mutual

def depth : MessageChain → Nat
  | node _ next => depthAll next

def depthAll : List MessageChain → Nat
  | [] => 0
  | c :: rest => max (c.depth + 1) (depthAll rest)

end

theorem lt_add_depthAll {n level : Nat} (h : level ≤ n) (l : List MessageChain) :
    n < level + depthAll l ↔ ∃ c ∈ l, n < level + 1 + c.depth := by
  induction l with
  | nil =>
    rw [depthAll]
    simp only [List.not_mem_nil, false_and, exists_false, iff_false]
    omega
  | cons c rest ih =>
    have hmax : n < level + max (c.depth + 1) (depthAll rest) ↔
        n < level + 1 + c.depth ∨ n < level + depthAll rest := by omega
    rw [depthAll, hmax, ih]
    simp only [List.mem_cons, exists_eq_or_imp]

theorem render_eq_none (stack : List (MessageChain × Nat)) :
    render stack = none ↔ ∃ x ∈ stack, maxDepth < x.2 + x.1.depth := by
  fun_induction render stack with
  | case1 => simp
  | case2 text next level rest hlt =>
    refine iff_of_true rfl ⟨_, List.mem_cons_self, ?_⟩
    exact Nat.lt_of_lt_of_le hlt (Nat.le_add_right _ _)
  | case3 text next level rest hle start ih =>
    have hchildren := lt_add_depthAll (Nat.not_lt.1 hle) next
    have ih : render (next.map (·, level + 1) ++ rest) = none ↔
        ∃ x ∈ next.map (·, level + 1) ++ rest, maxDepth < x.2 + x.1.depth := by
      rw [← List.attach_map_val]
      exact ih
    rw [Option.map_eq_none_iff, ih]
    simp only [List.mem_append, List.mem_map, List.mem_cons, or_and_right, exists_or,
      exists_exists_and_eq_and, exists_eq_left, depth, ← hchildren]

theorem flatten?_eq_none (c : MessageChain) : c.flatten? = none ↔ maxDepth < c.depth := by
  rw [flatten?, Option.map_eq_none_iff, render_eq_none]
  simp

end MessageChain

namespace Report

/-- What a report tells of a diagnostic whose file has this text. -/
structure Shows (text : Option String) (d : Diagnostic) (r : Report) : Prop where
  category : r.category = d.category
  code : r.code = d.code
  message : d.message.flatten? = some r.message
  place : ∀ s, text = some s → PlaceOf s d.start ⟨r.line, r.character⟩

variable {d : Diagnostic} {text : Option String} {context : Path} {coloured : Bool}

theorem ofDiagnostic?_eq_none :
    ofDiagnostic? d text context coloured = none ↔ MessageChain.maxDepth < d.message.depth :=
  Option.map_eq_none_iff.trans (MessageChain.flatten?_eq_none d.message)

theorem shows_ofDiagnostic? {r : Report} (h : ofDiagnostic? d text context coloured = some r) :
    Shows text d r := by
  obtain ⟨message, hmessage, rfl⟩ := Option.map_eq_some_iff.1 h
  refine ⟨rfl, rfl, hmessage, ?_⟩
  rintro s rfl
  exact LineMap.placeOf_position s d.start

end Report

end TypedLoader
