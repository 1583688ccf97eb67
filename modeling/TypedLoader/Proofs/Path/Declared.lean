import Mathlib.Data.List.Forall2
import TypedLoader.Proofs.Path.Normal

namespace TypedLoader

namespace Text

def suffixChars : List Char := ['.', 'd', 't', 's', 'm', 'c']

theorem toNat_suffixChars : ∀ c ∈ suffixChars, 0x2E ≤ c.toNat ∧ c.toNat ≤ 0x7A := by
  simp [suffixChars]

theorem toNat_ofNat (n : Nat) : (Char.ofNat n).toNat = if n.isValidChar then n else 0 := by
  by_cases h : n.isValidChar
  · rw [Char.ofNat, dif_pos h, if_pos h]
    rfl
  · rw [Char.ofNat, dif_neg h, if_neg h]
    rfl

theorem lowerAscii_of_not_capital {c : Char} (h : c.toNat < 0x41 ∨ 0x5A < c.toNat) :
    lowerAscii c = c := by
  rw [lowerAscii, if_neg]
  rintro ⟨hA, hZ⟩
  have hA : 0x41 ≤ c.toNat := hA
  have hZ : c.toNat ≤ 0x5A := hZ
  omega

theorem toNat_lowerAscii_of_capital {c : Char} (hA : 0x41 ≤ c.toNat) (hZ : c.toNat ≤ 0x5A) :
    (lowerAscii c).toNat = c.toNat + 32 := by
  have hcapital : 'A' ≤ c ∧ c ≤ 'Z' := ⟨hA, hZ⟩
  rw [lowerAscii, if_pos hcapital, toNat_ofNat, if_pos]
  exact Or.inl (by omega)

theorem lowerAscii_lowerAscii (c : Char) : lowerAscii (lowerAscii c) = lowerAscii c := by
  by_cases h : c.toNat < 0x41 ∨ 0x5A < c.toNat
  · rw [lowerAscii_of_not_capital h, lowerAscii_of_not_capital h]
  · rw [not_or, Nat.not_lt, Nat.not_lt] at h
    have hlower := toNat_lowerAscii_of_capital h.1 h.2
    exact lowerAscii_of_not_capital (by omega)

def Foreign (c : Char) : Prop := lowerAscii c ∉ suffixChars

instance : DecidablePred Foreign := fun _ ↦ inferInstanceAs (Decidable (_ ∉ _))

theorem foreign_of_toNat {c : Char} (h : c.toNat < 0x2E ∨ 0x7A < c.toNat) : Foreign c := by
  intro hmem
  rw [lowerAscii_of_not_capital (by omega)] at hmem
  have hrange := toNat_suffixChars c hmem
  omega

theorem foreign_ofNat {n : Nat} (h : 0x7A < n) : Foreign (Char.ofNat n) := by
  apply foreign_of_toNat
  rw [toNat_ofNat]
  split
  · exact Or.inr h
  · exact Or.inl (by decide)

/-- What a character becomes in lower case: its small letter, or something that no suffix
contains. -/
def Lowers (c : Char) (piece : List Char) : Prop :=
  piece = [lowerAscii c] ∨ piece ≠ [] ∧ Foreign c ∧ ∀ d ∈ piece, Foreign d

theorem capitalRuns_cases : ∀ run ∈ capitalRuns, run = (0x41, 0x5A, 1, 0x61) ∨
    0x7A < run.1 ∧ (0x7A < run.2.2.2 ∨ run = (0x212A, 0x212A, 1, 0x6B)) := by
  decide +kernel

theorem lowers_lowerChar (c : Char) : Lowers c (lowerChar c) := by
  rw [lowerChar]
  dsimp only
  split
  · rename_i hdotted
    refine Or.inr ⟨List.cons_ne_nil _ _, foreign_of_toNat (by omega), ?_⟩
    exact List.forall_mem_cons.2 ⟨by decide, List.forall_mem_singleton.2 (by decide)⟩
  · split
    · rename_i first last step lower hfound
      have hmem := List.mem_of_find?_eq_some hfound
      have hrange := List.find?_some hfound
      simp only [Bool.and_eq_true, decide_eq_true_eq] at hrange
      obtain ⟨⟨hfirst, hlast⟩, -⟩ := hrange
      have hrun := capitalRuns_cases _ hmem
      dsimp only at hrun
      rcases hrun with he | ⟨hforeign, hlower | he⟩
      · cases he
        have hcapital : 'A' ≤ c ∧ c ≤ 'Z' := ⟨hfirst, hlast⟩
        left
        rw [lowerAscii, if_pos hcapital]
        exact congrArg (fun n ↦ [Char.ofNat n]) (by omega)
      · refine Or.inr ⟨List.cons_ne_nil _ _, foreign_of_toNat (Or.inr (by omega)), ?_⟩
        exact List.forall_mem_singleton.2 (foreign_ofNat (by omega))
      · cases he
        refine Or.inr ⟨List.cons_ne_nil _ _, foreign_of_toNat (Or.inr (by omega)), ?_⟩
        have hzero : c.toNat - 0x212A = 0 := by omega
        rw [hzero]
        exact List.forall_mem_singleton.2 (by decide)
    · rename_i hnone
      have hascii := List.find?_eq_none.1 hnone (0x41, 0x5A, 1, 0x61) List.mem_cons_self
      left
      rw [lowerAscii_of_not_capital]
      by_contra hcapital
      rw [not_or, Nat.not_lt, Nat.not_lt] at hcapital
      exact hascii (by simp [hcapital.1, hcapital.2, Nat.mod_one])

theorem lowers_lowerFrom (before s : List Char) :
    ∃ pieces, lowerFrom before s = pieces.flatten ∧ List.Forall₂ Lowers s pieces := by
  induction s generalizing before with
  | nil => exact ⟨[], rfl, .nil⟩
  | cons c rest ih =>
    obtain ⟨pieces, hpieces, hlowers⟩ := ih (c :: before)
    rw [lowerFrom, hpieces]
    refine ⟨_ :: pieces, rfl, .cons ?_ hlowers⟩
    split
    · rename_i hsigma
      subst hsigma
      refine Or.inr ⟨?_, foreign_of_toNat (by decide), ?_⟩
      · split <;> exact List.cons_ne_nil _ _
      · split
        · exact List.forall_mem_singleton.2 (foreign_of_toNat (by decide))
        · exact List.forall_mem_singleton.2 (foreign_of_toNat (by decide))
    · exact lowers_lowerChar c

theorem isPrefixOf_of_foreign {a : List Char} (ha : ∀ c ∈ a, c ∈ suffixChars) {c : Char}
    (hc : lowerAscii c ∉ suffixChars) (rest : List Char) :
    a.isPrefixOf (lowerAscii c :: rest) = a.isEmpty := by
  cases a with
  | nil => rfl
  | cons d a =>
    have hne : (d == lowerAscii c) = false := by
      rw [beq_eq_false_iff_ne]
      rintro rfl
      exact hc (ha _ List.mem_cons_self)
    rw [List.isPrefixOf_cons_cons, hne]
    rfl

theorem isPrefixOf_lowers {s : List Char} {pieces : List (List Char)}
    (h : List.Forall₂ Lowers s pieces) : ∀ a : List Char, (∀ c ∈ a, c ∈ suffixChars) →
      a.isPrefixOf (pieces.map fun piece ↦ (piece.map lowerAscii).reverse).flatten =
        a.isPrefixOf (s.map lowerAscii) := by
  induction h with
  | nil => exact fun a _ ↦ rfl
  | @cons c piece s pieces hc _ ih =>
    intro a ha
    rw [List.map_cons, List.flatten_cons, List.map_cons]
    rcases hc with rfl | ⟨hne, hc, hpiece⟩
    · cases a with
      | nil => simp
      | cons d a =>
        rw [List.map_singleton, List.reverse_singleton, List.singleton_append,
          List.isPrefixOf_cons_cons, List.isPrefixOf_cons_cons, lowerAscii_lowerAscii,
          ih a fun e he ↦ ha e (List.mem_cons_of_mem d he)]
    · obtain ⟨front, d, rfl⟩ := List.eq_nil_or_concat' piece |>.resolve_left hne
      have hd : Foreign d := hpiece d (by simp)
      rw [List.map_append, List.reverse_append, List.map_singleton, List.reverse_singleton,
        List.append_assoc, List.singleton_append, isPrefixOf_of_foreign ha hd,
        isPrefixOf_of_foreign ha hc]

end Text

namespace Path

theorem suffixChars_of_mem : ∀ suffix ∈ declarationSuffixes,
    ∀ c ∈ suffix.toList.reverse, c ∈ Text.suffixChars := by
  have hall : ∀ suffix ∈ declarationSuffixes,
      suffix.toList.reverse.all Text.suffixChars.contains = true := by decide
  intro suffix hsuffix c hc
  exact List.contains_iff_mem.1 (List.all_eq_true.1 (hall suffix hsuffix) c hc)

theorem endsDeclared_lowerCase (s : List Char) : endsDeclared (Text.lowerCase s) = endsDeclared s := by
  obtain ⟨pieces, hpieces, hlowers⟩ := Text.lowers_lowerFrom [] s
  rw [endsDeclared, Text.lowerCase, hpieces]
  apply any_eq_any
  intro suffix hsuffix
  have hreverse : (pieces.flatten.map Text.lowerAscii).reverse =
      (pieces.reverse.map fun piece ↦ (piece.map Text.lowerAscii).reverse).flatten := by
    rw [List.map_flatten, List.reverse_flatten, List.map_map, List.map_reverse]
    rfl
  rw [hreverse, ← List.map_reverse]
  exact Text.isPrefixOf_lowers (List.rel_reverse hlowers) _ (suffixChars_of_mem suffix hsuffix)

/-- Whatever keys are compared, that of a path tells whether its normal form is a
declaration file. -/
theorem isDeclaration_normalize_key (case : PathCase) (p : Path) :
    p.normalize.isDeclaration = endsDeclared (case.key p).toList := by
  rw [isDeclaration_normalize]
  cases case with
  | sensitive => rfl
  | insensitive =>
    have hkey : (PathCase.insensitive.key p).toList =
        Text.lowerCase (PathCase.sensitive.key p).toList := by
      rw [PathCase.key, PathCase.key, PathCase.fold, PathCase.fold, String.toList_ofList,
        String.toList_ofList]
    rw [hkey, endsDeclared_lowerCase]

end Path

end TypedLoader
