import TypedLoader.Proofs.Path.Normal

namespace TypedLoader

namespace Component

def letters : Component → String
  | name s => s
  | _ => ""

theorem compare_eq_lex : Component.compare = compareLex (compareOn rank) (compareOn letters) := by
  funext a b
  cases a <;> cases b <;> rfl

instance : Std.TransCmp Component.compare :=
  compare_eq_lex ▸ inferInstance

instance : Std.LawfulEqCmp Component.compare where
  eq_of_compare {a b} h := by
    cases a <;> cases b
    case name.name s t =>
      have heq : Ord.compare s t = .eq := h
      exact congrArg name (Std.LawfulEqCmp.eq_of_compare heq)
    all_goals first | rfl | cases h

end Component

namespace Path

theorem compare_eq_lex (p q : Path) :
    p.compare q = List.compareLex Component.compare p.components q.components := by
  rw [compare]
  generalize p.components = as
  generalize q.components = bs
  induction as generalizing bs with
  | nil => cases bs <;> rfl
  | cons a as ih =>
    cases bs with
    | nil => rfl
    | cons b bs =>
      rw [compare.go, ih, List.compareLex_cons_cons]

instance : Std.TransCmp Path.compare where
  eq_swap {p q} := by
    rw [compare_eq_lex, compare_eq_lex]
    exact Std.OrientedCmp.eq_swap
  isLE_trans {p q r} h h' := by
    rw [compare_eq_lex] at h h' ⊢
    exact Std.TransCmp.isLE_trans h h'

theorem pairwise_sort (paths : List Path) :
    (sort paths).Pairwise fun p q ↦ (p.compare q).isLE = true := by
  refine List.pairwise_mergeSort (fun p q r ↦ Std.TransCmp.isLE_trans) (fun p q ↦ ?_) paths
  cases h : p.compare q with
  | gt =>
    rw [Std.OrientedCmp.gt_iff_lt.1 h]
    rfl
  | _ => rfl

theorem isAbsolute_eq_head (p : Path) : p.isAbsolute = (p.components.head? == some .root) := by
  have hbody : p.bodyComponents.head? ≠ some .root := by
    intro h
    obtain ⟨segment, -, hc⟩ := List.mem_map.1 (List.mem_of_head? h)
    rw [component] at hc
    split at hc <;> cases hc
  rw [components]
  cases p.isAbsolute with
  | true => rfl
  | false =>
    rw [if_neg Bool.false_ne_true]
    split
    · rfl
    · exact (beq_eq_false_iff_ne.2 hbody).symm

theorem normalize_eq_of_components {p q : Path} (h : p.components = q.components) :
    p.normalize = q.normalize := by
  rw [normalize, normalize, isAbsolute_eq_head, isAbsolute_eq_head, names, names, h]

theorem normalize_eq_of_compare {p q : Path} (h : p.compare q = .eq) :
    p.normalize = q.normalize := by
  rw [compare_eq_lex] at h
  exact normalize_eq_of_components (Std.LawfulEqCmp.eq_of_compare h)

end Path

end TypedLoader
