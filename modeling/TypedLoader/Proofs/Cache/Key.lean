import TypedLoader.Cache.Output
import TypedLoader.Proofs.Gzip
import TypedLoader.Proofs.Json.Tokens
import TypedLoader.Proofs.Text.Utf8

namespace TypedLoader

namespace Text

theorem hexChar_inj {m n : Nat} (hm : m < 16) (hn : n < 16) (h : hexChar m = hexChar n) :
    m = n := by
  have hdigit := congrArg hexDigit? h
  rw [Json.Lexer.hexDigit?_hexChar hm, Json.Lexer.hexDigit?_hexChar hn] at hdigit
  exact Option.some.inj hdigit

theorem hexByte_inj {a b : UInt8} (h : hexByte a = hexByte b) : a = b := by
  have ha := a.toNat_lt
  have hb := b.toNat_lt
  obtain ⟨hhigh, hlow⟩ := List.cons.inj h
  have hhigh := hexChar_inj (by omega) (by omega) hhigh
  have hlow := hexChar_inj (by omega) (by omega) (List.singleton_inj.1 hlow)
  exact UInt8.toNat_inj.1 (by omega)

theorem flatMap_hexByte_inj {a b : List UInt8} (h : a.flatMap hexByte = b.flatMap hexByte) :
    a = b := by
  induction a generalizing b with
  | nil =>
    cases b with
    | nil => rfl
    | cons y b => cases h
  | cons x a ih =>
    cases b with
    | nil => cases h
    | cons y b =>
      rw [List.flatMap_cons, List.flatMap_cons] at h
      obtain ⟨hfirst, hrest⟩ := List.append_inj h rfl
      rw [hexByte_inj hfirst, ih hrest]

theorem hex_inj {a b : List UInt8} (h : hex a = hex b) : a = b :=
  flatMap_hexByte_inj (String.ofList_inj.1 h)

end Text

namespace CacheKey

def Measured (s : String) : Prop := s.utf8ByteSize < UInt64.size

instance : DecidablePred Measured := fun _ ↦ inferInstanceAs (Decidable (_ < _))

theorem size_of_littleEndian {m n : Nat} (hm : m < UInt64.size) (hn : n < UInt64.size)
    (h : Gzip.littleEndian 8 m = Gzip.littleEndian 8 n) : m = n := by
  have hsize : 256 ^ 8 = UInt64.size := rfl
  have hvalue := congrArg Gzip.ofLittleEndian h
  rwa [Gzip.ofLittleEndian_littleEndian, Gzip.ofLittleEndian_littleEndian, hsize,
    Nat.mod_eq_of_lt hm, Nat.mod_eq_of_lt hn] at hvalue

theorem partBytes_append_inj {s t : String} (hs : Measured s) (ht : Measured t) {rest rest' : Bytes}
    (h : partBytes s ++ rest = partBytes t ++ rest') : s = t ∧ rest = rest' := by
  rw [partBytes, partBytes, List.append_assoc, List.append_assoc] at h
  obtain ⟨hlength, h⟩ := List.append_inj h (by
    rw [Gzip.length_littleEndian, Gzip.length_littleEndian])
  have hsize := size_of_littleEndian hs ht hlength
  obtain ⟨htext, hrest⟩ := List.append_inj h (by rw [Text.length_encode, Text.length_encode, hsize])
  refine ⟨?_, hrest⟩
  have hdecoded := congrArg Text.decode? htext
  rw [Text.decode?_encode, Text.decode?_encode] at hdecoded
  exact Option.some.inj hdecoded

theorem partBytes_ne_nil (s : String) : partBytes s ≠ [] := by
  intro h
  have hlength := congrArg List.length h
  rw [partBytes, List.length_append, Gzip.length_littleEndian, List.length_nil] at hlength
  omega

/-- Parts in a row can be told apart, also when their number is not known. -/
theorem flatMap_partBytes_inj {parts parts' : List String} (h : ∀ s ∈ parts, Measured s)
    (h' : ∀ s ∈ parts', Measured s) (he : parts.flatMap partBytes = parts'.flatMap partBytes) :
    parts = parts' := by
  induction parts generalizing parts' with
  | nil =>
    cases parts' with
    | nil => rfl
    | cons t parts' => exact absurd (List.append_eq_nil_iff.1 he.symm).1 (partBytes_ne_nil t)
  | cons s parts ih =>
    cases parts' with
    | nil => exact absurd (List.append_eq_nil_iff.1 he).1 (partBytes_ne_nil s)
    | cons t parts' =>
      obtain ⟨hs, hparts⟩ := List.forall_mem_cons.1 h
      obtain ⟨ht, hparts'⟩ := List.forall_mem_cons.1 h'
      rw [List.flatMap_cons, List.flatMap_cons] at he
      obtain ⟨rfl, hrest⟩ := partBytes_append_inj hs ht he
      rw [ih hparts hparts' hrest]

/-- The input of the hash determines the text of the module, the identifier and the query; so
where these differ, two keys are equal only if the hash has one value on two inputs. -/
theorem input_unambiguous {source identifier query source' identifier' query' : String}
    (h : ∀ s ∈ [source, identifier, query], Measured s)
    (h' : ∀ s ∈ [source', identifier', query'], Measured s) :
    (input source identifier query = input source' identifier' query' →
      (source, identifier, query) = (source', identifier', query')) ∧
    ((source, identifier, query) ≠ (source', identifier', query') →
      compute source identifier query = compute source' identifier' query' →
        input source identifier query ≠ input source' identifier' query' ∧
          Blake3.hash (input source identifier query) =
            Blake3.hash (input source' identifier' query')) := by
  have hinput : input source identifier query = input source' identifier' query' →
      (source, identifier, query) = (source', identifier', query') := by
    intro he
    have hparts := flatMap_partBytes_inj h h' he
    simp only [List.cons.injEq, and_true] at hparts
    obtain ⟨rfl, rfl, rfl⟩ := hparts
    rfl
  refine ⟨hinput, fun hne hkey ↦ ⟨mt hinput hne, ?_⟩⟩
  exact Text.hex_inj (CacheKey.mk.inj hkey)

/-- A text that ends in the length and the bytes of the next part is told from that part. -/
theorem input_unambiguous_of_imitation :
    (∀ s ∈ ["a\x01\x00\x00\x00\x00\x00\x00\x00b", "", ""], Measured s) ∧
    (∀ s ∈ ["a", "b", ""], Measured s) ∧
    input "a\x01\x00\x00\x00\x00\x00\x00\x00b" "" "" ≠ input "a" "b" "" := by
  have hleft : ∀ s ∈ ["a\x01\x00\x00\x00\x00\x00\x00\x00b", "", ""], Measured s := by decide
  have hright : ∀ s ∈ ["a", "b", ""], Measured s := by decide
  refine ⟨hleft, hright, fun he ↦ ?_⟩
  have htriple := (input_unambiguous hleft hright).1 he
  exact absurd (Prod.mk.inj htriple).1 (by decide)

end CacheKey

theorem length_flatMap_of_forall {α β : Type} {f : α → List β} {n : Nat} (h : ∀ a, (f a).length = n)
    (l : List α) : (l.flatMap f).length = n * l.length := by
  induction l with
  | nil => rfl
  | cons a l ih => rw [List.flatMap_cons, List.length_append, h, ih, List.length_cons, Nat.mul_succ,
      Nat.add_comm]

theorem Blake3.length_hash (bytes : Bytes) : (hash bytes).length = 32 := by
  have hwords (n : Node) (extra : UInt32) : (n.compress extra).toList.length = 8 := by
    simp [Node.compress]
  rw [hash, length_flatMap_of_forall (n := 4) (fun _ ↦ rfl), hwords]

namespace CacheKey

/-- A key of 64 hexadecimal digits, as all keys are that are computed. -/
structure IsHash (key : CacheKey) : Prop where
  length_eq : key.digits.toList.length = 64
  isSome : ∀ c ∈ key.digits.toList, (Text.hexDigit? c).isSome = true

theorem isHash_compute (source identifier query : String) :
    (compute source identifier query).IsHash := by
  refine ⟨?_, fun c hc ↦ ?_⟩
  · rw [compute, Text.hex, String.toList_ofList, length_flatMap_of_forall (n := 2) (fun _ ↦ rfl),
      Blake3.length_hash]
  · rw [compute, Text.hex, String.toList_ofList, List.mem_flatMap] at hc
    obtain ⟨b, -, hc⟩ := hc
    have hb := b.toNat_lt
    rw [Text.hexByte, List.mem_cons, List.mem_singleton] at hc
    rcases hc with rfl | rfl
    · rw [Json.Lexer.hexDigit?_hexChar (by omega)]
      rfl
    · rw [Json.Lexer.hexDigit?_hexChar (by omega)]
      rfl

end CacheKey

end TypedLoader
