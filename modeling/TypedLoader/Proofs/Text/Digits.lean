import TypedLoader.Text.Digits

namespace TypedLoader.Text

theorem digit?_of_isDigit {c : Char} (h : c.isDigit) : digit? c = some (c.toNat - '0'.toNat) := by
  have hc : '0' ≤ c ∧ c ≤ '9' := by
    simpa [Char.isDigit, Char.le_def] using h
  rw [digit?, if_pos hc]

theorem isDigit_of_isDigit {c : Char} (h : c.isDigit) : isDigit c := by
  rw [isDigit, digit?_of_isDigit h]
  rfl

theorem mapM_digit? {s : List Char} (h : ∀ c ∈ s, c.isDigit) :
    s.mapM digit? = some (s.map fun c ↦ c.toNat - '0'.toNat) := by
  induction s with
  | nil => rfl
  | cons c s ih =>
    rw [List.mapM_cons, digit?_of_isDigit (h c List.mem_cons_self),
      ih fun d hd ↦ h d (List.mem_cons_of_mem c hd)]
    rfl

theorem ofDigits_map (s : List Char) :
    ofDigits 10 (s.map fun c ↦ c.toNat - '0'.toNat) = Nat.ofDigitChars 10 s 0 := by
  rw [ofDigits, List.foldl_map, Nat.ofDigitChars_eq_foldl]
  simp only [Nat.mul_comm]

theorem isDigit_of_mem_toString {n : Nat} {c : Char} (h : c ∈ (toString n).toList) : c.isDigit := by
  rw [Nat.toString_eq_repr, Nat.toList_repr] at h
  exact Nat.isDigit_of_mem_toDigits (by decide) (by decide) h

theorem toList_toString_ne_nil (n : Nat) : (toString n).toList ≠ [] := by
  rw [Nat.toString_eq_repr, Nat.toList_repr]
  exact Nat.toDigits_ne_nil

theorem decimal?_toString (n : Nat) : decimal? (toString n).toList = some n := by
  have he : (toString n).toList.isEmpty = false := by
    rw [List.isEmpty_eq_false_iff]
    exact toList_toString_ne_nil n
  rw [decimal?, he, mapM_digit? fun c hc ↦ isDigit_of_mem_toString hc]
  simp only [Bool.false_eq_true, if_false, Option.map_some, ofDigits_map]
  rw [Nat.toString_eq_repr, Nat.toList_repr, Nat.ofDigitChars_ten_toDigits]

end TypedLoader.Text
