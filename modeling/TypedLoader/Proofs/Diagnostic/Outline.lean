import TypedLoader.Proofs.Diagnostic

namespace TypedLoader.MessageChain

mutual

/-- The parts of a message with their levels: the headline, and then what elaborates on it. -/
def outline (level : Nat) : MessageChain → List (Nat × String)
  | node text next => (level, text) :: outlineAll (level + 1) next

def outlineAll (level : Nat) : List MessageChain → List (Nat × String)
  | [] => []
  | c :: rest => c.outline level ++ outlineAll level rest

end

theorem outlineAll_eq (level : Nat) (l : List MessageChain) :
    outlineAll level l = l.flatMap (outline level) := by
  induction l with
  | nil => rfl
  | cons c rest ih => rw [outlineAll, ih, List.flatMap_cons]

/-- The headline starts the text. Every other part starts a line, with two blanks for each
level. -/
def line : Nat × String → List Char
  | (0, text) => text.toList
  | (level + 1, text) => '\n' :: (List.replicate (level + 1) [' ', ' ']).flatten ++ text.toList

theorem line_eq (level : Nat) (text : String) : line (level, text) =
    (if 0 < level then '\n' :: List.replicate (2 * level) ' ' else []) ++ text.toList := by
  cases level with
  | zero => rfl
  | succ level =>
    have hblanks : (List.replicate (level + 1) (List.replicate 2 ' ')).flatten =
        List.replicate (2 * (level + 1)) ' ' := by
      rw [List.flatten_replicate_replicate, Nat.mul_comm]
    rw [if_pos (Nat.succ_pos level), ← hblanks]
    rfl

/-- The parts that the trees on the stack will give, those of the top one first. -/
def pending (stack : List (MessageChain × Nat)) : List (Nat × String) :=
  stack.flatMap fun x ↦ x.1.outline x.2

theorem pending_node (text : String) (next : List MessageChain) (level : Nat)
    (rest : List (MessageChain × Nat)) : pending ((node text next, level) :: rest) =
      (level, text) :: pending (next.map (·, level + 1) ++ rest) := by
  rw [pending, pending, List.flatMap_append, List.flatMap_map, List.flatMap_cons, outline,
    outlineAll_eq, List.cons_append]

/-- What is rendered is the text of all that is on the stack. -/
theorem eq_of_render (stack : List (MessageChain × Nat)) :
    ∀ s, render stack = some s → s = (pending stack).flatMap line := by
  fun_induction render stack with
  | case1 =>
    rintro _ ⟨⟩
    rfl
  | case2 => simp
  | case3 text next level rest hle start ih =>
    intro s h
    obtain ⟨behind, hbehind, rfl⟩ := Option.map_eq_some_iff.1 h
    have hrest : behind = (pending (next.map (·, level + 1) ++ rest)).flatMap line := by
      rw [← List.attach_map_val] at hbehind ⊢
      exact ih behind hbehind
    rw [pending_node, List.flatMap_cons, line_eq, ← hrest]
    rfl

theorem exists_outline_iff (n level : Nat) :
    (c : MessageChain) → ((∃ x ∈ c.outline level, n < x.1) ↔ n < level + c.depth)
  | node text next => by
    have hchildren : (∃ x ∈ outlineAll (level + 1) next, n < x.1) ↔
        ∃ c ∈ next, n < level + 1 + c.depth := by
      have ih : ∀ c ∈ next, ((∃ x ∈ c.outline (level + 1), n < x.1) ↔ n < level + 1 + c.depth) :=
        fun c _ ↦ exists_outline_iff n (level + 1) c
      rw [outlineAll_eq]
      constructor
      · rintro ⟨x, hx, hlt⟩
        obtain ⟨c, hc, hx⟩ := List.mem_flatMap.1 hx
        exact ⟨c, hc, (ih c hc).1 ⟨x, hx, hlt⟩⟩
      · rintro ⟨c, hc, hlt⟩
        obtain ⟨x, hx, hlt⟩ := (ih c hc).2 hlt
        exact ⟨x, List.mem_flatMap.2 ⟨c, hc, hx⟩, hlt⟩
    simp only [outline, depth, List.mem_cons, exists_eq_or_imp, hchildren]
    rcases Nat.lt_or_ge n level with hlt | hle
    · exact iff_of_true (Or.inl hlt) (by omega)
    · rw [lt_add_depthAll hle, or_iff_right (Nat.not_lt.2 hle)]

/-- A message has a text unless a part of it lies too deep, and then it is that of its outline. -/
theorem flatten?_eq_outline (c : MessageChain) : c.flatten? =
    if ∃ x ∈ c.outline 0, maxDepth < x.1 then none
    else some (String.ofList ((c.outline 0).flatMap line)) := by
  have hdeep := exists_outline_iff maxDepth 0 c
  rw [Nat.zero_add] at hdeep
  cases hflat : c.flatten? with
  | none => rw [if_pos (hdeep.2 ((flatten?_eq_none c).1 hflat))]
  | some s =>
    obtain ⟨chars, hchars, rfl⟩ := Option.map_eq_some_iff.1 hflat
    have hnot : ¬maxDepth < c.depth := fun hlt ↦ by
      rw [(flatten?_eq_none c).2 hlt] at hflat
      cases hflat
    have heq := eq_of_render _ chars hchars
    rw [if_neg (hdeep.not.2 hnot), heq, pending, List.flatMap_singleton]

end TypedLoader.MessageChain
