import TypedLoader.Text.Utf8

namespace TypedLoader.Text

theorem encode_append (s t : String) : encode (s ++ t) = encode s ++ encode t := by
  simp [encode]

theorem length_encode (s : String) : (encode s).length = s.utf8ByteSize := by
  rw [encode, Array.length_toList]
  rfl

theorem decode?_encode (s : String) : decode? (encode s) = some s := by
  have hb : (⟨(encode s).toArray⟩ : ByteArray) = s.toByteArray := by
    simp [encode]
  rw [decode?, hb, String.fromUTF8?, dif_pos s.isValidUTF8]
  rfl

/-- The encoding of a text is the only byte sequence that the text is read from. -/
theorem decode?_eq_some {bytes : Bytes} {s : String} :
    decode? bytes = some s ↔ encode s = bytes := by
  constructor
  · intro h
    unfold decode? String.fromUTF8? at h
    split at h
    · obtain rfl := Option.some.inj h
      rfl
    · cases h
  · rintro rfl
    exact decode?_encode s

theorem utf8EncodeChar_of_ascii {c : Char} (h : c.toNat < 128) :
    String.utf8EncodeChar c = [c.toNat.toUInt8] := by
  have hv : c.val ≤ 0x7f := by
    rw [UInt32.le_iff_toNat_le]
    exact Nat.le_of_lt_succ h
  exact String.utf8EncodeChar_eq_singleton (by simp [Char.utf8Size, hv])

theorem encode_ofList (s : List Char) :
    encode (String.ofList s) = s.flatMap String.utf8EncodeChar := by
  rw [encode, String.toUTF8_eq_toByteArray, String.toByteArray_ofList]
  induction s with
  | nil => rfl
  | cons c s ih =>
    rw [List.utf8Encode_cons, List.utf8Encode_singleton]
    simpa using ih

theorem encode_singleton (c : Char) : encode (String.singleton c) = String.utf8EncodeChar c := by
  rw [String.singleton_eq_ofList, encode_ofList, List.flatMap_singleton]

theorem encode_ofList_of_ascii {s : List Char} (h : ∀ c ∈ s, c.toNat < 128) :
    encode (String.ofList s) = s.map fun c ↦ c.toNat.toUInt8 := by
  rw [encode_ofList, List.map_eq_flatMap, List.flatMap_def, List.flatMap_def]
  exact congrArg List.flatten (List.map_congr_left fun c hc ↦ utf8EncodeChar_of_ascii (h c hc))

theorem utf8ByteSize_ofList_le (s : List Char) : (String.ofList s).utf8ByteSize ≤ 4 * s.length := by
  rw [← length_encode, encode_ofList]
  induction s with
  | nil => exact Nat.zero_le _
  | cons c s ih =>
    have hc : (String.utf8EncodeChar c).length ≤ 4 :=
      (String.length_utf8EncodeChar c).symm ▸ c.utf8Size_le_four
    rw [List.flatMap_cons, List.length_append, List.length_cons]
    omega

/-- What stands in the encoding of a text before the encoding of a text is one by itself. -/
theorem exists_encode_of_append {bytes : Bytes} {s t : String} (h : bytes ++ encode s = encode t) :
    ∃ r, encode r = bytes := by
  by_cases hs : s = ""
  · subst hs
    exact ⟨t, by simpa [encode] using h.symm⟩
  · have hpos : 0 < s.toByteArray.size := by
      rw [String.size_toByteArray]
      exact Nat.pos_of_ne_zero (mt String.utf8ByteSize_eq_zero_iff.1 hs)
    have ht : t.toByteArray = ⟨bytes.toArray⟩ ++ s.toByteArray := by
      apply ByteArray.ext
      apply Array.toList_inj.1
      simpa [encode] using h.symm
    have hsize : (⟨bytes.toArray⟩ : ByteArray).size = bytes.length := rfl
    have hlt : (⟨bytes.length⟩ : String.Pos.Raw) < t.rawEndPos := by
      rw [String.Pos.Raw.lt_iff, String.byteIdx_rawEndPos, ← String.size_toByteArray, ht,
        ByteArray.size_append]
      simp only [hsize]
      omega
    -- the byte at the seam starts a character
    have hfirst : (t.getUTF8Byte ⟨bytes.length⟩ hlt).IsUTF8FirstByte := by
      have hzero := s.isValidUTF8.isUTF8FirstByte_getElem_zero hpos
      simp only [String.getUTF8Byte, ht]
      rw [ByteArray.getElem_append_right (Nat.le_of_eq hsize)]
      simpa only [hsize, Nat.sub_self] using hzero
    have hvalid := String.Pos.Raw.isValid_iff_isUTF8FirstByte.2 (Or.inr ⟨hlt, hfirst⟩)
    obtain ⟨m, -, hm, -⟩ := hvalid.exists
    refine ⟨String.ofList m, ?_⟩
    rw [encode, String.toUTF8_eq_toByteArray, String.toByteArray_ofList, hm, ht]
    simp

theorem le_toNat_of_mem {c : Char} {b : UInt8} (hc : ¬c.toNat < 128)
    (h : b ∈ String.utf8EncodeChar c) : 128 ≤ b.toNat := by
  have hv : ¬c.val.toNat ≤ 127 := fun hv ↦ hc (Nat.lt_succ_of_le hv)
  simp only [String.utf8EncodeChar, hv, if_false] at h
  have hbyte {n : Nat} (hn : 128 ≤ n) (hn' : n < 256) : 128 ≤ (UInt8.ofNat n).toNat := by
    rwa [UInt8.toNat_ofNat', Nat.mod_eq_of_lt hn']
  split at h
  · simp only [List.mem_cons, List.not_mem_nil, or_false] at h
    rcases h with rfl | rfl <;> exact hbyte (by omega) (by omega)
  · split at h
    · simp only [List.mem_cons, List.not_mem_nil, or_false] at h
      rcases h with rfl | rfl | rfl <;> exact hbyte (by omega) (by omega)
    · simp only [List.mem_cons, List.not_mem_nil, or_false] at h
      rcases h with rfl | rfl | rfl | rfl <;> exact hbyte (by omega) (by omega)

theorem eq_lineFeed_of_mem {c : Char} (h : 10 ∈ String.utf8EncodeChar c) : c = '\n' := by
  have hc : c.toNat < 128 := Decidable.byContradiction fun hc ↦
    absurd (le_toNat_of_mem hc h) (by decide)
  rw [utf8EncodeChar_of_ascii hc, List.mem_singleton] at h
  have hten := congrArg UInt8.toNat h
  rw [Nat.toUInt8, UInt8.toNat_ofNat', Nat.mod_eq_of_lt (Nat.lt_trans hc (by decide))] at hten
  exact Char.ext (UInt32.toNat_inj.1 hten.symm)

theorem lineFeed_notMem_encode {s : String} (h : '\n' ∉ s.toList) : 10 ∉ encode s := by
  intro hm
  rw [← String.ofList_toList (s := s), encode_ofList] at hm
  obtain ⟨c, hc, hb⟩ := List.mem_flatMap.1 hm
  exact h (eq_lineFeed_of_mem hb ▸ hc)

theorem encode_line (s : String) : encode (s ++ "\n") = encode s ++ [10] := by
  rw [encode_append]
  rfl

end TypedLoader.Text
