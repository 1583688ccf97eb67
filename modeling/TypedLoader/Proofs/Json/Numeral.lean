import Mathlib.Data.List.TakeWhile
import TypedLoader.Json.Draft
import TypedLoader.Json.Printer
import TypedLoader.Proofs.Text.Digits

namespace TypedLoader.Json

def Number.numeral (n : Number) : Numeral :=
  (Numeral.ofChars? n.chars).getD ⟨false, [0], none, none⟩

def Number.IsWord (n : Int) : Prop := -(UInt64.size : Int) ≤ 2 * n ∧ n < UInt64.size

namespace Numeral

def digits (n : Nat) : List Nat := (Nat.toDigits 10 n).map fun c ↦ c.toNat - '0'.toNat

theorem head?_toDigits {n : Nat} (h : 0 < n) : (Nat.toDigits 10 n).head? ≠ some '0' := by
  induction n using Nat.strongRecOn with
  | ind n ih =>
    by_cases hn : n < 10
    · rw [Nat.toDigits_of_lt_base hn]
      have hall : ∀ n < 10, 0 < n → Nat.digitChar n ≠ '0' := by decide
      simpa using hall n hn h
    · have hd := ih (n / 10) (by omega) (by omega)
      rw [Nat.toDigits_of_base_le (by decide) (by omega), List.head?_append]
      cases hh : (Nat.toDigits 10 (n / 10)).head? with
      | none => exact absurd (List.head?_eq_none_iff.1 hh) Nat.toDigits_ne_nil
      | some c => rwa [hh] at hd

theorem not_leadingZero (n : Nat) :
    ((Nat.toDigits 10 n).head? == some '0' && decide (1 < (Nat.toDigits 10 n).length)) = false := by
  rw [Bool.and_eq_false_iff]
  cases n with
  | zero => exact Or.inr (by simp [Nat.toDigits_zero])
  | succ n => exact Or.inl (by simpa using head?_toDigits (Nat.succ_pos n))

theorem isDigit_toDigits {n : Nat} {c : Char} (h : c ∈ Nat.toDigits 10 n) : c.isDigit :=
  Nat.isDigit_of_mem_toDigits (by decide) (by decide) h

theorem filterMap_digit? {s : List Char} (h : ∀ c ∈ s, c.isDigit) :
    s.filterMap Text.digit? = s.map fun c ↦ c.toNat - '0'.toNat := by
  induction s with
  | nil => rfl
  | cons c s ih =>
    rw [List.filterMap_cons, Text.digit?_of_isDigit (h c List.mem_cons_self),
      ih fun d hd ↦ h d (List.mem_cons_of_mem c hd)]
    rfl

theorem ofDigits_unsigned (n : Nat) :
    ofChars? (Nat.toDigits 10 n) = some ⟨false, digits n, none, none⟩ ∧
      ofChars? ('-' :: Nat.toDigits 10 n) = some ⟨true, digits n, none, none⟩ := by
  have hall : ∀ c ∈ Nat.toDigits 10 n, Text.isDigit c :=
    fun c hc ↦ Text.isDigit_of_isDigit (isDigit_toDigits hc)
  have htake : (Nat.toDigits 10 n).takeWhile Text.isDigit = Nat.toDigits 10 n :=
    List.takeWhile_eq_self_iff.2 hall
  have hdrop : (Nat.toDigits 10 n).dropWhile Text.isDigit = [] :=
    List.dropWhile_eq_nil_iff.2 hall
  have hempty : (Nat.toDigits 10 n).isEmpty = false := by
    rw [List.isEmpty_eq_false_iff]
    exact Nat.toDigits_ne_nil
  have hsign : ∀ s, Nat.toDigits 10 n ≠ '-' :: s := by
    intro s hs
    have hm : '-' ∈ Nat.toDigits 10 n := by rw [hs]; exact List.mem_cons_self
    exact absurd (isDigit_toDigits hm) (by decide)
  have hvalues : (Nat.toDigits 10 n).filterMap Text.digit? = digits n :=
    filterMap_digit? fun c hc ↦ isDigit_toDigits hc
  constructor
  · unfold ofChars?
    split
    · rename_i negative s hs
      split at hs
      · exact absurd ‹_› (hsign _)
      · simp only [Prod.mk.injEq] at hs
        obtain ⟨rfl, rfl⟩ := hs
        simp [htake, hdrop, hempty, hvalues, not_leadingZero]
  · simp [ofChars?, htake, hdrop, hempty, hvalues, not_leadingZero]

theorem le_foldl (acc : Nat) (ds : List Nat) :
    acc ≤ ds.foldl (fun n d ↦ n * 10 + d) acc := by
  induction ds generalizing acc with
  | nil => exact Nat.le_refl acc
  | cons d ds ih =>
    have h := ih (acc * 10 + d)
    simp only [List.foldl_cons]
    omega

theorem collect_of_lt {acc : Nat} {ds : List Nat}
    (h : ds.foldl (fun n d ↦ n * 10 + d) acc < UInt64.size) :
    collect acc ds = (ds.foldl (fun n d ↦ n * 10 + d) acc, 0) := by
  induction ds generalizing acc with
  | nil => rfl
  | cons d ds ih =>
    have hle := le_foldl (acc * 10 + d) ds
    simp only [List.foldl_cons] at h ⊢
    rw [collect, if_pos (by omega), ih h]

theorem collect_digits {n : Nat} (h : n < UInt64.size) : collect 0 (digits n) = (n, 0) := by
  have hv : (digits n).foldl (fun n d ↦ n * 10 + d) 0 = n := by
    have h₁ := Text.ofDigits_map (Nat.toDigits 10 n)
    rwa [Nat.ofDigitChars_ten_toDigits] at h₁
  rw [collect_of_lt (hv.symm ▸ h), hv]

end Numeral

theorem Number.chars_int (n : Int) : (Number.int n).chars =
    if n < 0 then '-' :: Nat.toDigits 10 n.natAbs else Nat.toDigits 10 n.natAbs := by
  cases n with
  | ofNat n =>
    have hn : ¬(Int.ofNat n < 0) := by simp
    rw [if_neg hn]
    exact Nat.toList_repr
  | negSucc n =>
    have hn : Int.negSucc n < 0 := Int.negSucc_lt_zero n
    rw [if_pos hn]
    have hs : toString (Int.negSucc n) = "-" ++ Nat.repr (n + 1) := rfl
    rw [Number.chars, hs, String.toList_append, Nat.toList_repr]
    rfl

theorem Number.ofChars?_int (n : Int) : Numeral.ofChars? (Number.int n).chars =
    some ⟨decide (n < 0), Numeral.digits n.natAbs, none, none⟩ := by
  rw [Number.chars_int]
  by_cases h : n < 0
  · simp only [h, if_true, decide_true, (Numeral.ofDigits_unsigned n.natAbs).2]
  · simp only [h, if_false, decide_false, (Numeral.ofDigits_unsigned n.natAbs).1]

theorem Number.numeral_int (n : Int) : (Number.int n).numeral =
    ⟨decide (n < 0), Numeral.digits n.natAbs, none, none⟩ := by
  rw [Number.numeral, Number.ofChars?_int, Option.getD_some]

theorem Number.number?_int {n : Int} (h : IsWord n) :
    (Number.int n).numeral.number? = some (.int n) := by
  obtain ⟨hlow, hhigh⟩ := h
  have hsize : n.natAbs < UInt64.size := by omega
  rw [Number.numeral_int]
  simp only [Numeral.number?, Numeral.collect_digits hsize, Nat.lt_irrefl, if_false]
  by_cases hn : n < 0
  · have hpos : 0 < n.natAbs ∧ 2 * n.natAbs ≤ UInt64.size := by omega
    simp only [hn, decide_true, Bool.not_true, Bool.false_eq_true, if_false, hpos, and_self,
      if_true]
    congr 2
    omega
  · simp only [hn, decide_false, Bool.not_false, if_true]
    congr 2
    omega

end TypedLoader.Json
