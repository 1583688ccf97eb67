import TypedLoader.Proofs.Config.Query
import TypedLoader.Proofs.Text.HexDigits

namespace TypedLoader.Query

variable {E : Char → Char → Nat → Prop} {s rest : List Char} {bytes : Bytes}

def HexPair (a b : Char) (n : Nat) : Prop :=
  ∃ x y, Text.hexDigit? a = some x ∧ Text.hexDigit? b = some y ∧ n = x * 16 + y

def SignedDigit (a b : Char) (n : Nat) : Prop := a = '+' ∧ Text.hexDigit? b = some n

def HexOrSigned (a b : Char) (n : Nat) : Prop := HexPair a b n ∨ SignedDigit a b n

/-- How a component spells bytes: an escape is a percent sign and two characters for a number,
a plus sign is a blank, and other characters stand for themselves. -/
inductive Spells (E : Char → Char → Nat → Prop) : List Char → Bytes → Prop
  | nil : Spells E [] []
  | escape {a b : Char} {n : Nat} {rest : List Char} {bytes : Bytes} :
      E a b n → Spells E rest bytes → Spells E ('%' :: a :: b :: rest) (UInt8.ofNat n :: bytes)
  | blank {rest : List Char} {bytes : Bytes} :
      Spells E rest bytes → Spells E ('+' :: rest) (0x20 :: bytes)
  | plain {c : Char} {rest : List Char} {bytes : Bytes} : c ≠ '%' → c ≠ '+' →
      Spells E rest bytes → Spells E (c :: rest) (String.utf8EncodeChar c ++ bytes)

def WellFormed (E : Char → Char → Nat → Prop) (s : List Char) : Prop :=
  ∃ text, Spells E s (Text.encode text)

theorem spells_nil : Spells E [] bytes ↔ bytes = [] := by
  constructor
  · intro h
    cases h
    rfl
  · rintro rfl
    exact .nil

theorem spells_escape {a b : Char} : Spells E ('%' :: a :: b :: rest) bytes ↔
    ∃ n tail, E a b n ∧ Spells E rest tail ∧ bytes = UInt8.ofNat n :: tail := by
  constructor
  · intro h
    cases h with
    | escape hn ht => exact ⟨_, _, hn, ht, rfl⟩
    | plain hc _ _ => exact absurd rfl hc
  · rintro ⟨n, tail, hn, ht, rfl⟩
    exact .escape hn ht

theorem spells_blank : Spells E ('+' :: rest) bytes ↔
    ∃ tail, Spells E rest tail ∧ bytes = 0x20 :: tail := by
  constructor
  · intro h
    cases h with
    | blank ht => exact ⟨_, ht, rfl⟩
    | plain _ hc _ => exact absurd rfl hc
  · rintro ⟨tail, ht, rfl⟩
    exact .blank ht

theorem spells_plain {c : Char} (h : c ≠ '%') (h' : c ≠ '+') : Spells E (c :: rest) bytes ↔
    ∃ tail, Spells E rest tail ∧ bytes = String.utf8EncodeChar c ++ tail := by
  constructor
  · intro hs
    cases hs with
    | escape => exact absurd rfl h
    | blank => exact absurd rfl h'
    | plain _ _ ht => exact ⟨_, ht, rfl⟩
  · rintro ⟨tail, ht, rfl⟩
    exact .plain h h' ht

theorem not_spells_percent (h : rest.length < 2) : ¬Spells E ('%' :: rest) bytes := by
  intro hs
  cases hs with
  | escape _ _ =>
    simp only [List.length_cons] at h
    omega
  | plain hc _ _ => exact hc rfl

theorem escapeValue?_eq_some {a b : Char} {n : Nat} :
    escapeValue? a b = some n ↔ HexOrSigned a b n := by
  unfold escapeValue? HexOrSigned HexPair SignedDigit
  split
  · rename_i ha
    subst ha
    have hplus : Text.hexDigit? '+' = none := rfl
    simp [hplus]
  · rename_i ha
    simp only [Option.bind_eq_bind, Option.bind_eq_some_iff, Option.pure_def, Option.some.injEq, ha,
      false_and, or_false]
    constructor
    · rintro ⟨x, hx, y, hy, rfl⟩
      exact ⟨x, y, hx, hy, rfl⟩
    · rintro ⟨x, y, hx, hy, rfl⟩
      exact ⟨x, hx, y, hy, rfl⟩

theorem HexOrSigned.utf8Size {a b : Char} {n : Nat} (h : HexOrSigned a b n) :
    a.utf8Size = 1 ∧ b.utf8Size = 1 := by
  rcases h with ⟨x, y, hx, hy, -⟩ | ⟨rfl, hy⟩
  · exact ⟨Text.utf8Size_of_hexDigit? hx, Text.utf8Size_of_hexDigit? hy⟩
  · exact ⟨rfl, Text.utf8Size_of_hexDigit? hy⟩

/-- The decoder reads what is spelled with hexadecimal digits, a sign allowed. -/
theorem bytes?_eq_ok (component : String) (s : List Char) (bytes : Bytes) :
    bytes? component s = .ok bytes ↔ Spells HexOrSigned s bytes := by
  fun_induction bytes? component s generalizing bytes with
  | case1 => rw [spells_nil, Except.ok.injEq, eq_comm]
  | case2 a b rest hsize n hvalue ih =>
    simp [spells_escape, ← escapeValue?_eq_some, hvalue, map_eq_ok_iff, ih]
  | case3 a b rest hsize hvalue => simp [spells_escape, ← escapeValue?_eq_some, hvalue]
  | case4 a b rest hsize htwo =>
    refine iff_of_false nofun fun hs ↦ ?_
    obtain ⟨n, tail, hn, -⟩ := spells_escape.1 hs
    exact hsize hn.utf8Size
  | case5 a b rest hsize htwo =>
    refine iff_of_false nofun fun hs ↦ ?_
    obtain ⟨n, tail, hn, -⟩ := spells_escape.1 hs
    exact hsize hn.utf8Size
  | case6 a _ => exact iff_of_false nofun (not_spells_percent (by simp))
  | case7 a _ => exact iff_of_false nofun (not_spells_percent (by simp))
  | case8 => exact iff_of_false nofun (not_spells_percent (by simp))
  | case9 rest ih =>
    simp only [spells_blank, map_eq_ok_iff, ih]
  | case10 c rest hpercent hplus ih =>
    simp only [spells_plain hpercent hplus, map_eq_ok_iff, ih, Text.encode_singleton]

variable {blanks : List Char}

theorem spells_of_plain (h : ∀ c ∈ s, c ≠ '%' ∧ c ≠ '+') :
    Spells E s (Text.encode (String.ofList s)) := by
  rw [Text.encode_ofList]
  induction s with
  | nil => exact .nil
  | cons c s ih =>
    obtain ⟨hc, hs⟩ := List.forall_mem_cons.1 h
    exact .plain hc.1 hc.2 (ih hs)

theorem plain_of_isBlank {c : Char} (h : Text.isBlank c) : c ≠ '%' ∧ c ≠ '+' := by
  constructor <;>
  · rintro rfl
    revert h
    decide

theorem HexPair.isBlank {a b : Char} {n : Nat} (h : HexPair a b n) :
    Text.isBlank a = false ∧ Text.isBlank b = false := by
  obtain ⟨x, y, hx, hy, -⟩ := h
  exact ⟨Text.isBlank_of_hexDigit? hx, Text.isBlank_of_hexDigit? hy⟩

theorem HexOrSigned.isBlank {a b : Char} {n : Nat} (h : HexOrSigned a b n) :
    Text.isBlank a = false ∧ Text.isBlank b = false := by
  rcases h with h | ⟨rfl, hy⟩
  · exact h.isBlank
  · exact ⟨by decide, Text.isBlank_of_hexDigit? hy⟩

theorem Spells.append {t : List Char} {front : Bytes} (h : Spells E s front)
    (ht : Spells E t bytes) : Spells E (s ++ t) (front ++ bytes) := by
  induction h with
  | nil => exact ht
  | escape hn _ ih => exact .escape hn ih
  | blank _ ih => exact .blank ih
  | plain hc hc' _ ih =>
    rw [List.append_assoc]
    exact .plain hc hc' ih

theorem exists_cons_of_append {c : Char} (hb : ∀ x ∈ blanks, Text.isBlank x)
    (hc : Text.isBlank c = false) (h : s ++ blanks = c :: rest) :
    ∃ s', s = c :: s' ∧ s' ++ blanks = rest := by
  cases s with
  | nil =>
    obtain rfl : blanks = c :: rest := h
    rw [hb c List.mem_cons_self] at hc
    cases hc
  | cons d s =>
    obtain ⟨rfl, hrest⟩ := List.cons.inj h
    exact ⟨s, rfl, hrest⟩

/-- White space at the end is no part of an escape. -/
theorem Spells.of_append_blank (h : Spells HexOrSigned (s ++ blanks) bytes)
    (hb : ∀ c ∈ blanks, Text.isBlank c) :
    ∃ front, Spells HexOrSigned s front ∧ bytes = front ++ Text.encode (String.ofList blanks) := by
  generalize hl : s ++ blanks = l at h
  induction h generalizing s blanks with
  | nil =>
    obtain ⟨rfl, rfl⟩ := List.append_eq_nil_iff.1 hl
    exact ⟨[], .nil, rfl⟩
  | escape hn _ ih =>
    obtain ⟨s₁, rfl, h₁⟩ := exists_cons_of_append hb (by decide) hl
    obtain ⟨s₂, rfl, h₂⟩ := exists_cons_of_append hb hn.isBlank.1 h₁
    obtain ⟨s₃, rfl, h₃⟩ := exists_cons_of_append hb hn.isBlank.2 h₂
    obtain ⟨front, hs, rfl⟩ := ih hb h₃
    exact ⟨_, .escape hn hs, rfl⟩
  | blank _ ih =>
    obtain ⟨s₁, rfl, h₁⟩ := exists_cons_of_append hb (by decide) hl
    obtain ⟨front, hs, rfl⟩ := ih hb h₁
    exact ⟨_, .blank hs, rfl⟩
  | @plain c rest bytes hc hc' _ ih =>
    cases s with
    | nil =>
      obtain rfl : blanks = c :: rest := hl
      obtain ⟨front, hs, rfl⟩ := ih (s := []) (fun x hx ↦ hb x (List.mem_cons_of_mem c hx)) rfl
      obtain rfl := spells_nil.1 hs
      refine ⟨[], .nil, ?_⟩
      rw [Text.encode_ofList, Text.encode_ofList]
      rfl
    | cons d s =>
      obtain ⟨rfl, hrest⟩ := List.cons.inj hl
      obtain ⟨front, hs, rfl⟩ := ih hb hrest
      refine ⟨_, .plain hc hc' hs, ?_⟩
      rw [List.append_assoc]

theorem wellFormed_append_blank (hb : ∀ c ∈ blanks, Text.isBlank c) :
    WellFormed HexOrSigned (s ++ blanks) ↔ WellFormed HexOrSigned s := by
  constructor
  · rintro ⟨text, h⟩
    obtain ⟨front, hs, he⟩ := h.of_append_blank hb
    obtain ⟨r, rfl⟩ := Text.exists_encode_of_append he.symm
    exact ⟨r, hs⟩
  · rintro ⟨text, h⟩
    refine ⟨text ++ String.ofList blanks, ?_⟩
    rw [Text.encode_append]
    exact h.append (spells_of_plain fun c hc ↦ plain_of_isBlank (hb c hc))

theorem infix_sign_cons {c : Char} : ['%', '+'] <:+: c :: rest ↔
    (c = '%' ∧ rest.head? = some '+') ∨ ['%', '+'] <:+: rest := by
  rw [List.infix_cons_iff, List.cons_prefix_cons]
  have hstart : ['+'] <+: rest ↔ rest.head? = some '+' := by
    cases rest with
    | nil => simp
    | cons d rest => simp [List.cons_prefix_cons, eq_comm]
  rw [hstart, eq_comm]

theorem spells_hexPair : Spells HexPair s bytes ↔
    Spells HexOrSigned s bytes ∧ ¬['%', '+'] <:+: s := by
  constructor
  · intro h
    induction h with
    | nil => exact ⟨.nil, by simp⟩
    | escape hn _ ih =>
      refine ⟨.escape (Or.inl hn) ih.1, ?_⟩
      obtain ⟨x, y, hx, hy, -⟩ := hn
      have ha := Text.ne_of_hexDigit? hx (d := '+') rfl
      have ha' := Text.ne_of_hexDigit? hx (d := '%') rfl
      have hb' := Text.ne_of_hexDigit? hy (d := '%') rfl
      simp [infix_sign_cons, ha, ha', hb', ih.2]
    | blank _ ih => exact ⟨.blank ih.1, by simp [infix_sign_cons, ih.2]⟩
    | plain hc hc' _ ih => exact ⟨.plain hc hc' ih.1, by simp [infix_sign_cons, hc, ih.2]⟩
  · rintro ⟨h, hsign⟩
    induction h with
    | nil => exact .nil
    | escape hn _ ih =>
      simp only [infix_sign_cons, not_or] at hsign
      rcases hn with hn | ⟨rfl, -⟩
      · exact .escape hn (ih hsign.2.2.2)
      · exact absurd ⟨trivial, rfl⟩ hsign.1
    | blank _ ih => exact .blank (ih (mt (fun h ↦ infix_sign_cons.2 (Or.inr h)) hsign))
    | plain hc hc' _ ih =>
      exact .plain hc hc' (ih (mt (fun h ↦ infix_sign_cons.2 (Or.inr h)) hsign))

theorem decode_eq_ok {t : List Char} {text : String} :
    decode t = .ok text ↔ Spells HexOrSigned t (Text.encode text) := by
  unfold decode
  constructor
  · intro h
    obtain ⟨bytes, hbytes, h⟩ := bind_eq_ok h
    split at h
    · rename_i hd
      obtain rfl := Except.ok.inj h
      rw [Text.decode?_eq_some.1 hd]
      exact (bytes?_eq_ok _ _ _).1 hbytes
    · cases h
  · intro h
    rw [(bytes?_eq_ok _ _ _).2 h]
    simp only [bind, Except.bind, Text.decode?_encode]

theorem decode_of_plain {t : List Char} (h : ∀ c ∈ t, c ≠ '%' ∧ c ≠ '+') :
    decode t = .ok (String.ofList t) := decode_eq_ok.2 (spells_of_plain h)

theorem body_keyed (c : String) : body ("?k=" ++ c) = 'k' :: '=' :: Text.trimEnd c.toList := by
  have hchars : ("?k=" ++ c).toList = '?' :: 'k' :: '=' :: c.toList := by simp
  have hstrip : Text.stripStart? ['?'] ('?' :: 'k' :: '=' :: c.toList) =
      some ('k' :: '=' :: c.toList) := rfl
  rw [body, hchars, hstrip, Option.getD_some, Text.trim, Text.trimStart,
    Text.dropWhile_of_head (by decide), Text.trimEnd_cons (by decide),
    Text.trimEnd_cons (by decide)]

variable {c : String}

theorem pieces_keyed (hc : ∀ x ∈ c.toList, x ≠ '&' ∧ x ≠ ',' ∧ x ≠ '=') :
    pieces ("?k=" ++ c) = ['k' :: '=' :: Text.trimEnd c.toList] := by
  obtain ⟨blanks, hs, -⟩ := Text.exists_blank c.toList
  have hmark : ∀ x ∈ 'k' :: '=' :: Text.trimEnd c.toList, isSeparator x = false := by
    simp only [List.forall_mem_cons]
    refine ⟨by decide, by decide, fun x hx ↦ ?_⟩
    have hx := hc x (by rw [hs]; exact List.mem_append_left _ hx)
    simp [isSeparator, hx.1, hx.2.1]
  rw [pieces, body_keyed, Text.splitWhere_of_none hmark]
  rfl

theorem read_keyed (hc : ∀ x ∈ c.toList, x ≠ '&' ∧ x ≠ ',' ∧ x ≠ '=') :
    read ("?k=" ++ c) = (decode (Text.trimEnd c.toList)).map fun text ↦ [("k", value text)] := by
  have hform : PairForm ("?k=" ++ c) := by
    rw [PairForm, body_keyed]
    simp
  have hcut : Text.cutAt? '=' ('k' :: '=' :: Text.trimEnd c.toList) =
      some (['k'], Text.trimEnd c.toList) := rfl
  have hkey : decode ['k'] = .ok "k" := decode_of_plain (by simp)
  have hlist : listKey? "k" = none := by decide
  rw [read_of_pairForm hform, pieces_keyed hc, addPairs, pair_of_cut hcut, hkey]
  cases decode (Text.trimEnd c.toList) with
  | error e => rfl
  | ok text =>
    simp only [bind, Except.bind, Except.map, add_of_plain hlist]
    rfl

theorem accepted_keyed (hc : ∀ x ∈ c.toList, x ≠ '&' ∧ x ≠ ',' ∧ x ≠ '=') :
    (∃ o, read ("?k=" ++ c) = .ok o) ↔ WellFormed HexOrSigned c.toList := by
  obtain ⟨blanks, hs, hb⟩ := Text.exists_blank c.toList
  rw [hs, wellFormed_append_blank hb, read_keyed hc]
  constructor
  · rintro ⟨o, ho⟩
    obtain ⟨text, htext, -⟩ := map_eq_ok ho
    exact ⟨text, decode_eq_ok.1 htext⟩
  · rintro ⟨text, htext⟩
    rw [decode_eq_ok.2 htext]
    exact ⟨_, rfl⟩

/-- A component is accepted just if every percent sign starts an escape and the bytes are a
text, where an escape has two hexadecimal digits or a plus sign and one digit. The components
whose escapes all have two digits are those that are accepted and have no plus sign behind a
percent sign. -/
theorem accepts_wellFormed (hc : ∀ x ∈ c.toList, x ≠ '&' ∧ x ≠ ',' ∧ x ≠ '=') :
    ((∃ o, read ("?k=" ++ c) = .ok o) ↔ WellFormed HexOrSigned c.toList) ∧
      (WellFormed HexPair c.toList ↔
        (∃ o, read ("?k=" ++ c) = .ok o) ∧ ¬['%', '+'] <:+: c.toList) := by
  refine ⟨accepted_keyed hc, ?_⟩
  rw [accepted_keyed hc]
  simp only [WellFormed, spells_hexPair, exists_and_right]

theorem accepts_wellFormed_of_sign :
    WellFormed HexOrSigned "%+5".toList ∧ ¬WellFormed HexPair "%+5".toList := by
  obtain ⟨haccepted, hstrict⟩ := accepts_wellFormed (c := "%+5") (by simp)
  refine ⟨haccepted.1 ⟨[("k", .str "\x05")], by rfl⟩, ?_⟩
  intro h
  exact (hstrict.1 h).2 ⟨[], ['5'], rfl⟩

end TypedLoader.Query
