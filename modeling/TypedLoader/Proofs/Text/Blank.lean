import Mathlib.Data.List.TakeWhile
import TypedLoader.Text.Blank

namespace TypedLoader.Text

theorem dropWhile_append_of_all {s t : List Char} (h : ∀ c ∈ s, isBlank c) :
    (s ++ t).dropWhile isBlank = t.dropWhile isBlank := by
  induction s with
  | nil => rfl
  | cons c s ih =>
    rw [List.cons_append, List.dropWhile_cons_of_pos (h c List.mem_cons_self)]
    exact ih fun d hd ↦ h d (List.mem_cons_of_mem c hd)

theorem dropWhile_of_head {c : Char} {s : List Char} (h : isBlank c = false) :
    (c :: s).dropWhile isBlank = c :: s :=
  List.dropWhile_cons_of_neg (by simp [h])

theorem trim_of_not_blank {s : List Char} (h : ∀ c ∈ s, isBlank c = false) : trim s = s := by
  have hdrop (t : List Char) (ht : ∀ c ∈ t, isBlank c = false) : t.dropWhile isBlank = t := by
    cases t with
    | nil => rfl
    | cons c t => exact dropWhile_of_head (ht c List.mem_cons_self)
  rw [trim, trimStart, hdrop s h, trimEnd,
    hdrop s.reverse fun c hc ↦ h c (List.mem_reverse.1 hc), List.reverse_reverse]

theorem trimEnd_cons {c : Char} (h : isBlank c = false) (s : List Char) :
    trimEnd (c :: s) = c :: trimEnd s := by
  rw [trimEnd, trimEnd, List.reverse_cons, List.dropWhile_append]
  split
  · rename_i hnil
    rw [dropWhile_of_head h, List.isEmpty_iff.1 hnil]
    rfl
  · simp

theorem exists_blank (s : List Char) : ∃ b, s = trimEnd s ++ b ∧ ∀ c ∈ b, isBlank c := by
  refine ⟨(s.reverse.takeWhile isBlank).reverse, ?_, ?_⟩
  · rw [trimEnd, ← List.reverse_append, List.takeWhile_append_dropWhile, List.reverse_reverse]
  · intro c hc
    exact List.mem_takeWhile_imp (List.mem_reverse.1 hc)

theorem trim_append {a s b : List Char} {c d : Char} (ha : ∀ x ∈ a, isBlank x)
    (hb : ∀ x ∈ b, isBlank x) (hs : s.head? = some c) (hc : isBlank c = false)
    (ht : s.getLast? = some d) (hd : isBlank d = false) : trim (a ++ (s ++ b)) = s := by
  have hfront : trimStart (a ++ (s ++ b)) = s ++ b := by
    obtain ⟨t, rfl⟩ : ∃ t, s = c :: t := by
      cases s with
      | nil => simp at hs
      | cons x t =>
        simp only [List.head?_cons, Option.some.injEq] at hs
        exact ⟨t, by rw [hs]⟩
    rw [trimStart, dropWhile_append_of_all ha, List.cons_append, dropWhile_of_head hc]
  have hback : trimEnd (s ++ b) = s := by
    obtain ⟨t, rfl⟩ := List.getLast?_eq_some_iff.1 ht
    have hr : (t ++ [d] ++ b).reverse = b.reverse ++ d :: t.reverse := by simp
    rw [trimEnd, hr, dropWhile_append_of_all (fun x hx ↦ hb x (List.mem_reverse.1 hx)),
      dropWhile_of_head hd]
    simp
  rw [trim, hfront, hback]

theorem trim_append_of_blank (s : List Char) {b : List Char} (hb : ∀ c ∈ b, isBlank c) :
    trim (s ++ b) = trim s := by
  by_cases hs : ∀ c ∈ s, isBlank c
  · have hall : ∀ c ∈ s ++ b, isBlank c := fun c hc ↦ (List.mem_append.1 hc).elim (hs c) (hb c)
    rw [trim, trim, trimStart, trimStart, List.dropWhile_eq_nil_iff.2 hall,
      List.dropWhile_eq_nil_iff.2 hs]
  · have hne : s.dropWhile isBlank ≠ [] := fun hn ↦ hs (List.dropWhile_eq_nil_iff.1 hn)
    have hstart : trimStart (s ++ b) = trimStart s ++ b := by
      rw [trimStart, trimStart, List.dropWhile_append]
      exact if_neg (by simpa using hne)
    rw [trim, trim, hstart, trimEnd, trimEnd, List.reverse_append,
      dropWhile_append_of_all fun c hc ↦ hb c (List.mem_reverse.1 hc)]

theorem trim_eq_nil_iff {s : List Char} : trim s = [] ↔ ∀ c ∈ s, isBlank c := by
  have hback (t : List Char) : trimEnd t = [] ↔ ∀ c ∈ t, isBlank c := by
    rw [trimEnd, List.reverse_eq_nil_iff, List.dropWhile_eq_nil_iff]
    simp only [List.mem_reverse]
  rw [trim, hback, trimStart]
  constructor
  · intro h c hc
    rw [← List.takeWhile_append_dropWhile (p := isBlank) (l := s)] at hc
    exact (List.mem_append.1 hc).elim List.mem_takeWhile_imp (h c)
  · exact fun h c hc ↦ h c ((List.dropWhile_sublist isBlank).subset hc)

theorem isBlank_of_isDigit {c : Char} (h : c.isDigit) : isBlank c = false := by
  have hc : 48 ≤ c.toNat ∧ c.toNat ≤ 57 := by
    simpa [Char.isDigit, UInt32.le_iff_toNat_le] using h
  simp only [isBlank, Bool.or_eq_false_iff, Bool.and_eq_false_iff, decide_eq_false_iff_not,
    beq_eq_false_iff_ne]
  omega

end TypedLoader.Text
