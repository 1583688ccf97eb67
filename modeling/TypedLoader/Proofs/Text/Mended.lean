import TypedLoader.Proofs.Text.Utf8

namespace TypedLoader.Text

/-- A character of which some bytes have been read: their bits, the least and the greatest
byte that may come next, and how many bytes come after that one. -/
structure Begun where
  bits : Nat
  low : Nat := 0x80
  high : Nat := 0xBF
  more : Nat

def first (b : Nat) : Char ⊕ Begun :=
  if b < 0x80 then .inl (Char.ofNat b)
  else if b < 0xC2 then .inl '\uFFFD'
  else if b < 0xE0 then .inr { bits := b - 0xC0, more := 0 }
  else if b < 0xF0 then .inr {
    bits := b - 0xE0
    low := if b = 0xE0 then 0xA0 else 0x80
    high := if b = 0xED then 0x9F else 0xBF
    more := 1 }
  else if b < 0xF5 then .inr {
    bits := b - 0xF0
    low := if b = 0xF0 then 0x90 else 0x80
    high := if b = 0xF4 then 0x8F else 0xBF
    more := 2 }
  else .inl '\uFFFD'

/-- The characters of bytes after a character that has begun, if any. Every stretch that could
still have become a character is replaced as one. -/
def mend : Option Begun → Bytes → List Char
  | none, [] => []
  | some _, [] => ['\uFFFD']
  | begun, b :: rest =>
    let anew := match first b.toNat with
      | .inl c => c :: mend none rest
      | .inr next => mend (some next) rest
    match begun with
    | none => anew
    | some s =>
      if s.low ≤ b.toNat ∧ b.toNat ≤ s.high then
        let bits := s.bits * 64 + b.toNat % 64
        match s.more with
        | 0 => Char.ofNat bits :: mend none rest
        | more + 1 => mend (some { bits, more }) rest
      else '\uFFFD' :: anew

/-- Bytes read as text, with a replacement character for every stretch that is none. -/
def mended (bytes : Bytes) : String := String.ofList (mend none bytes)

section Reading

variable {b : UInt8} {n : Nat} {s : Begun}

theorem mend_ascii (hb : b.toNat = n) (h : n < 0x80) (rest : Bytes) :
    mend none (b :: rest) = Char.ofNat n :: mend none rest := by
  rw [mend, hb, first, if_pos h]

theorem mend_begin (hb : b.toNat = n) (h : first n = .inr s) (rest : Bytes) :
    mend none (b :: rest) = mend (some s) rest := by
  rw [mend, hb, h]

theorem mend_next (hb : b.toNat = n) (hlow : s.low ≤ n) (hhigh : n ≤ s.high) (rest : Bytes) :
    mend (some s) (b :: rest) =
      match s.more with
      | 0 => Char.ofNat (s.bits * 64 + n % 64) :: mend none rest
      | more + 1 => mend (some { bits := s.bits * 64 + n % 64, more }) rest := by
  subst hb
  rw [mend]
  exact if_pos ⟨hlow, hhigh⟩

theorem toNat_ofNat_of_lt (h : n < 256) : (UInt8.ofNat n).toNat = n := by
  rw [UInt8.toNat_ofNat', Nat.mod_eq_of_lt h]

theorem mend_last (bits n : Nat) (rest : Bytes) :
    mend (some { bits, more := 0 }) (UInt8.ofNat (n % 64 + 128) :: rest) =
      Char.ofNat (bits * 64 + n % 64) :: mend none rest := by
  have hmod : (n % 64 + 128) % 64 = n % 64 := by omega
  have hb := toNat_ofNat_of_lt (n := n % 64 + 128) (by omega)
  have hhigh : n % 64 + 128 ≤ 0xBF := by omega
  rw [mend_next hb (Nat.le_add_left ..) hhigh, hmod]

theorem mend_later (bits more n : Nat) (rest : Bytes) :
    mend (some { bits, more := more + 1 }) (UInt8.ofNat (n % 64 + 128) :: rest) =
      mend (some { bits := bits * 64 + n % 64, more }) rest := by
  have hmod : (n % 64 + 128) % 64 = n % 64 := by omega
  have hb := toNat_ofNat_of_lt (n := n % 64 + 128) (by omega)
  have hhigh : n % 64 + 128 ≤ 0xBF := by omega
  rw [mend_next hb (Nat.le_add_left ..) hhigh, hmod]

/-- The second byte of a longer character, which the first one may restrict. -/
theorem mend_second {m more : Nat} (hb : b.toNat = n) (h : first n = .inr s)
    (hlow : s.low ≤ m % 64 + 128) (hhigh : m % 64 + 128 ≤ s.high) (hmore : s.more = more + 1)
    (rest : Bytes) : mend none (b :: UInt8.ofNat (m % 64 + 128) :: rest) =
      mend (some { bits := s.bits * 64 + m % 64, more }) rest := by
  have hmod : (m % 64 + 128) % 64 = m % 64 := by omega
  have hb' := toNat_ofNat_of_lt (n := m % 64 + 128) (by omega)
  rw [mend_begin hb h, mend_next hb' hlow hhigh, hmore, hmod]

end Reading

theorem first_two {n : Nat} (h : 2 ≤ n) (hn : n < 32) :
    first (n + 192) = .inr { bits := n, more := 0 } := by
  rw [first, if_neg (by omega), if_neg (by omega), if_pos (by omega), Nat.add_sub_cancel]

theorem first_three {n m : Nat} (hn : n < 16) (hm : m < 64) (hleast : n = 0 → 32 ≤ m)
    (hsurrogate : n = 13 → m < 32) : ∃ s, first (n + 224) = .inr s ∧ s.bits = n ∧ s.more = 1 ∧
      s.low ≤ m + 128 ∧ m + 128 ≤ s.high := by
  rw [first, if_neg (by omega), if_neg (by omega), if_neg (by omega), if_pos (by omega)]
  refine ⟨_, rfl, Nat.add_sub_cancel .., rfl, ?_, ?_⟩ <;>
    simp only <;> split <;> omega

theorem first_four {n m : Nat} (hn : n < 5) (hm : m < 64) (hleast : n = 0 → 16 ≤ m)
    (hmost : n = 4 → m < 16) : ∃ s, first (n + 240) = .inr s ∧ s.bits = n ∧ s.more = 2 ∧
      s.low ≤ m + 128 ∧ m + 128 ≤ s.high := by
  rw [first, if_neg (by omega), if_neg (by omega), if_neg (by omega), if_neg (by omega),
    if_pos (by omega)]
  refine ⟨_, rfl, Nat.add_sub_cancel .., rfl, ?_, ?_⟩ <;>
    simp only <;> split <;> omega

theorem mend_char (c : Char) (rest : Bytes) :
    mend none (String.utf8EncodeChar c ++ rest) = c :: mend none rest := by
  have hc {n : Nat} (h : n = c.val.toNat) : Char.ofNat n = c := h ▸ Char.ofNat_toNat c
  have hvalid : c.val.toNat < 0xD800 ∨ 0xDFFF < c.val.toNat ∧ c.val.toNat < 0x110000 := c.valid
  rw [String.utf8EncodeChar]
  generalize c.val.toNat = v at hc hvalid ⊢
  by_cases hone : v ≤ 127
  · have hb := toNat_ofNat_of_lt (n := v) (by omega)
    rw [if_pos hone, List.singleton_append, mend_ascii hb (by omega), hc rfl]
  rw [if_neg hone]
  by_cases htwo : v ≤ 2047
  · have hb := toNat_ofNat_of_lt (n := v / 64 % 32 + 192) (by omega)
    have hfirst := first_two (n := v / 64 % 32) (by omega) (by omega)
    rw [if_pos htwo, List.cons_append, List.singleton_append, mend_begin hb hfirst, mend_last,
      hc (by omega)]
  rw [if_neg htwo]
  by_cases hthree : v ≤ 65535
  · have hb := toNat_ofNat_of_lt (n := v / 4096 % 16 + 224) (by omega)
    obtain ⟨s, hfirst, hbits, hmore, hlow, hhigh⟩ := first_three (n := v / 4096 % 16)
      (m := v / 64 % 64) (by omega) (by omega) (by omega) (by omega)
    rw [if_pos hthree, List.cons_append, List.cons_append, List.singleton_append,
      mend_second hb hfirst hlow hhigh hmore, mend_last, hbits, hc (by omega)]
  · have hb := toNat_ofNat_of_lt (n := v / 262144 % 8 + 240) (by omega)
    obtain ⟨s, hfirst, hbits, hmore, hlow, hhigh⟩ := first_four (n := v / 262144 % 8)
      (m := v / 4096 % 64) (by omega) (by omega) (by omega) (by omega)
    rw [if_neg hthree, List.cons_append, List.cons_append, List.cons_append, List.singleton_append,
      mend_second hb hfirst hlow hhigh hmore, mend_later, mend_last, hbits, hc (by omega)]

/-- Text stays as it is. -/
theorem mended_encode (s : String) : mended (encode s) = s := by
  have h (l : List Char) : mend none (l.flatMap String.utf8EncodeChar) = l := by
    induction l with
    | nil => rfl
    | cons c l ih => rw [List.flatMap_cons, mend_char, ih]
  rw [mended, ← String.ofList_toList (s := s), encode_ofList, h]

end TypedLoader.Text
