import TypedLoader.Proofs.Config.Escapes

namespace TypedLoader.Query

open Json (Object)

variable {capital : Bool} {c : Char} {pairs : List (String × String)}

def escapeDigit (capital : Bool) (n : Nat) : Char :=
  if capital then (Text.hexChar n).toUpper else Text.hexChar n

/-- Letters and digits of ASCII stand for themselves, and every other byte is an escape. -/
def escapeByte (capital : Bool) (b : UInt8) : List Char :=
  let c := Char.ofNat b.toNat
  if c.isAlphanum then [c]
  else ['%', escapeDigit capital (b.toNat / 16), escapeDigit capital (b.toNat % 16)]

def escaped (capital : Bool) (s : String) : List Char :=
  (Text.encode s).flatMap (escapeByte capital)

def writePair (capital : Bool) (p : String × String) : List Char :=
  escaped capital p.1 ++ '=' :: escaped capital p.2

def write (capital : Bool) (pairs : List (String × String)) : String :=
  String.ofList ('?' :: List.intercalate ['&'] (pairs.map (writePair capital)))

theorem hexDigit?_escapeDigit (capital : Bool) {n : Nat} (h : n < 16) :
    Text.hexDigit? (escapeDigit capital n) = some n := by
  have hall : ∀ capital, ∀ n < 16, Text.hexDigit? (escapeDigit capital n) = some n := by decide
  exact hall capital n h

theorem hexPair_byte (capital : Bool) (b : UInt8) :
    HexPair (escapeDigit capital (b.toNat / 16)) (escapeDigit capital (b.toNat % 16)) b.toNat := by
  have hb := b.toNat_lt
  refine ⟨_, _, hexDigit?_escapeDigit capital (by omega),
    hexDigit?_escapeDigit capital (by omega), ?_⟩
  omega

theorem toNat_ofNat_byte (b : UInt8) : (Char.ofNat b.toNat).toNat = b.toNat := by
  have hb := b.toNat_lt
  rw [Char.ofNat, dif_pos (Or.inl (by omega))]
  rfl

theorem ranges_of_isAlphanum (h : c.isAlphanum) : 48 ≤ c.toNat ∧ c.toNat ≤ 57 ∨
    65 ≤ c.toNat ∧ c.toNat ≤ 90 ∨ 97 ≤ c.toNat ∧ c.toNat ≤ 122 := by
  have hval : c.val.toNat = c.toNat := rfl
  have hcases : (decide ('A'.val ≤ c.val ∧ c.val ≤ 'Z'.val) ||
      (decide ('a'.val ≤ c.val) && decide (c.val ≤ 'z'.val)) ||
      (decide ('0'.val ≤ c.val) && decide (c.val ≤ '9'.val))) = true := h
  simp [UInt32.le_iff_toNat_le, hval] at hcases
  omega

theorem spells_escapeByte (capital : Bool) (b : UInt8) :
    Spells HexPair (escapeByte capital b) [b] := by
  unfold escapeByte
  dsimp only
  split
  · rename_i hc
    have hranges := ranges_of_isAlphanum hc
    have hspell := spells_of_plain (E := HexPair) (s := [Char.ofNat b.toNat]) (by
      rw [List.forall_mem_singleton]
      constructor <;>
      · intro he
        rw [he] at hc
        revert hc
        decide)
    rwa [Text.encode_ofList_of_ascii (by
      rw [List.forall_mem_singleton]
      omega), List.map_singleton, toNat_ofNat_byte, Nat.toUInt8, UInt8.ofNat_toNat] at hspell
  · have hspell := Spells.escape (hexPair_byte capital b) .nil
    rwa [UInt8.ofNat_toNat] at hspell

theorem spells_escaped (capital : Bool) (s : String) :
    Spells HexPair (escaped capital s) (Text.encode s) := by
  unfold escaped
  induction Text.encode s with
  | nil => exact .nil
  | cons b bytes ih => exact (spells_escapeByte capital b).append ih

theorem decode_escaped (capital : Bool) (s : String) : decode (escaped capital s) = .ok s :=
  decode_eq_ok.2 (spells_hexPair.1 (spells_escaped capital s)).1

theorem mem_escaped {s : String} (h : c ∈ escaped capital s) : c = '%' ∨ c.isAlphanum := by
  obtain ⟨b, -, hc⟩ := List.mem_flatMap.1 h
  have hb := b.toNat_lt
  have hdigit : ∀ capital, ∀ n < 16, (escapeDigit capital n).isAlphanum := by decide
  unfold escapeByte at hc
  dsimp only at hc
  split at hc
  · rename_i halpha
    rw [List.mem_singleton.1 hc]
    exact Or.inr halpha
  · simp only [List.mem_cons, List.not_mem_nil, or_false] at hc
    rcases hc with rfl | rfl | rfl
    · exact Or.inl rfl
    · exact Or.inr (hdigit _ _ (by omega))
    · exact Or.inr (hdigit _ _ (by omega))

theorem ne_of_mem_escaped {s : String} {d : Char} (h : c ∈ escaped capital s) (hpercent : d ≠ '%')
    (hd : d.isAlphanum = false) : c ≠ d := by
  rintro rfl
  rcases mem_escaped h with he | he
  · exact hpercent he
  · rw [hd] at he
    cases he

theorem isBlank_of_mem_escaped {s : String} (h : c ∈ escaped capital s) :
    Text.isBlank c = false := by
  rcases mem_escaped h with rfl | he
  · decide
  · have hranges := ranges_of_isAlphanum he
    simp only [Text.isBlank, Bool.or_eq_false_iff, Bool.and_eq_false_iff, decide_eq_false_iff_not,
      beq_eq_false_iff_ne]
    omega

theorem mem_writePair {p : String × String} (h : c ∈ writePair capital p) :
    Text.isBlank c = false ∧ isSeparator c = false ∧ c ≠ '\x7b' := by
  have hescaped {s : String} (h : c ∈ escaped capital s) :
      Text.isBlank c = false ∧ isSeparator c = false ∧ c ≠ '\x7b' := by
    refine ⟨isBlank_of_mem_escaped h, ?_, ne_of_mem_escaped h (by decide) (by decide)⟩
    rw [isSeparator, Bool.or_eq_false_iff, beq_eq_false_iff_ne, beq_eq_false_iff_ne]
    exact ⟨ne_of_mem_escaped h (by decide) (by decide),
      ne_of_mem_escaped h (by decide) (by decide)⟩
  rcases List.mem_append.1 h with h | h
  · exact hescaped h
  · rcases List.mem_cons.1 h with rfl | h
    · decide
    · exact hescaped h

theorem mem_written (h : c ∈ List.intercalate ['&'] (pairs.map (writePair capital))) :
    Text.isBlank c = false ∧ c ≠ '\x7b' := by
  rcases Text.mem_intercalate h with hmark | ⟨s, hs, hc⟩
  · obtain rfl := List.mem_singleton.1 hmark
    decide
  · obtain ⟨p, -, rfl⟩ := List.mem_map.1 hs
    exact ⟨(mem_writePair hc).1, (mem_writePair hc).2.2⟩

theorem body_write (capital : Bool) (pairs : List (String × String)) :
    body (write capital pairs) = List.intercalate ['&'] (pairs.map (writePair capital)) := by
  rw [body, write, String.toList_ofList]
  exact Text.trim_of_not_blank fun c hc ↦ (mem_written hc).1

theorem pairForm_write (capital : Bool) (pairs : List (String × String)) :
    PairForm (write capital pairs) := by
  rw [PairForm, body_write]
  intro h
  exact (mem_written (List.mem_of_mem_head? h)).2 rfl

theorem pieces_write (capital : Bool) (pairs : List (String × String)) :
    pieces (write capital pairs) = pairs.map (writePair capital) := by
  have hmark : ∀ s ∈ pairs.map (writePair capital), ∀ c ∈ s, isSeparator c = false := by
    intro s hs c hc
    obtain ⟨p, -, rfl⟩ := List.mem_map.1 hs
    exact (mem_writePair hc).2.1
  have hfull : ∀ s ∈ pairs.map (writePair capital), (!s.isEmpty) = true := by
    intro s hs
    obtain ⟨p, -, rfl⟩ := List.mem_map.1 hs
    simp [writePair]
  rw [pieces, body_write]
  by_cases hnil : pairs.map (writePair capital) = []
  · rw [hnil]
    rfl
  · rw [Text.splitWhere_intercalate (by decide) hmark hnil, List.filter_eq_self.2 hfull]

theorem pair_writePair (capital : Bool) (p : String × String) :
    pair (writePair capital p) = .ok (p.1, value p.2) := by
  have hmark : '=' ∉ escaped capital p.1 := fun h ↦
    ne_of_mem_escaped h (by decide) (by decide) rfl
  rw [writePair, pair_of_cut (Text.cutAt?_append hmark _), decode_escaped, decode_escaped]
  rfl

theorem uses_write (capital : Bool) (pairs : List (String × String)) :
    uses (write capital pairs) = .ok (pairs.map fun p ↦ (p.1, value p.2)) := by
  rw [uses, pieces_write]
  induction pairs with
  | nil => rfl
  | cons p pairs ih =>
    rw [List.map_cons, List.mapM_cons, pair_writePair, ih]
    rfl

theorem addAll_of_plain {us : List (String × Json)} (h : ∀ u ∈ us, listKey? u.1 = none)
    (o : Object) : addAll o us = .ok (Object.merge o us) := by
  induction us generalizing o with
  | nil => rfl
  | cons u us ih =>
    obtain ⟨hu, hus⟩ := List.forall_mem_cons.1 h
    rw [addAll, List.foldlM_cons, add_of_plain hu]
    exact ih hus _

theorem lookup_map_value (l : List (String × String)) (key : String) :
    (l.map fun p ↦ (p.1, value p.2)).lookup key = (l.lookup key).map value := by
  induction l with
  | nil => rfl
  | cons p l ih =>
    rw [List.map_cons, List.lookup_cons, List.lookup_cons, ih]
    split <;> rfl

/-- Keys and values of any characters are read back from a query that is written for them,
unless a key ends with brackets. A key that occurs again keeps its place and has the value
that comes last. -/
theorem read_write (capital : Bool) (h : ∀ p ∈ pairs, ¬['[', ']'] <:+ p.1.toList) :
    ∃ o, read (write capital pairs) = .ok o ∧
      o = pairs.foldl (fun (o : Object) p ↦ o.insert p.1 (value p.2)) [] ∧
      o.map (·.1) = (pairs.map (·.1)).eraseDups ∧
      ∀ key, o.get? key = (pairs.reverse.lookup key).map value := by
  have hplain : ∀ u ∈ pairs.map fun p ↦ (p.1, value p.2), listKey? u.1 = none := by
    intro u hu
    obtain ⟨p, hp, rfl⟩ := List.mem_map.1 hu
    exact listKey?_eq_none.2 (h p hp)
  have hread : read (write capital pairs) =
      .ok (Object.ofMembers (pairs.map fun p ↦ (p.1, value p.2))) :=
    (read_eq_ok (pairForm_write capital pairs)).2
      ⟨_, uses_write capital pairs, addAll_of_plain hplain []⟩
  refine ⟨_, hread, ?_, ?_, ?_⟩
  · rw [Object.ofMembers, Object.merge, List.foldl_map]
  · rw [Object.keys_ofMembers, List.map_map]
    rfl
  · intro key
    rw [Object.get?_ofMembers, ← List.map_reverse, lookup_map_value]

def markedPairs : List (String × String) := [("&a=[]+", "1"), ("\x7b", "%5"), ("&a=[]+", "-é,")]

theorem read_write_of_marks : ∃ o, read (write true markedPairs) = .ok o ∧
    o.map (·.1) = ["&a=[]+", "\x7b"] ∧ o.get? "&a=[]+" = some (.str "-é,") := by
  have hfree : ∀ p ∈ markedPairs, ¬['[', ']'] <:+ p.1.toList := by decide
  obtain ⟨o, hread, -, hkeys, hvalues⟩ := read_write true hfree
  refine ⟨o, hread, ?_, ?_⟩
  · rw [hkeys]
    decide
  · rw [hvalues]
    rfl

end TypedLoader.Query
