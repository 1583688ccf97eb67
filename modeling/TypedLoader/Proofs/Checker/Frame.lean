import TypedLoader.Checker.Frame
import TypedLoader.Proofs.Text.Blank
import TypedLoader.Proofs.Text.Digits
import TypedLoader.Proofs.Text.Utf8

namespace TypedLoader.Frame

theorem cutLine_append {line rest : Bytes} (h : 10 ∉ line) :
    cutLine (line ++ 10 :: rest) = (line ++ [10], rest) := by
  have hcut : Text.cutAt? 10 (line ++ 10 :: rest) = some (line, rest) := by
    induction line with
    | nil => rfl
    | cons b line ih =>
      have hb : (b == 10) = false := by
        rw [beq_eq_false_iff_ne]
        rintro rfl
        exact h List.mem_cons_self
      rw [List.cons_append, Text.cutAt?, hb, ih fun hm ↦ h (List.mem_cons_of_mem b hm)]
      rfl
  rw [cutLine, hcut]

def headerLine (n : Nat) : List Char :=
  headerName ++ ' ' :: (toString n).toList ++ ['\r']

theorem mem_headerLine {n : Nat} {c : Char} (h : c ∈ headerLine n) :
    c ∈ headerName ∨ c = ' ' ∨ c.isDigit ∨ c = '\r' := by
  simp only [headerLine, List.mem_append, List.mem_cons, List.not_mem_nil, or_false] at h
  rcases h with (h | rfl | h) | rfl
  · exact Or.inl h
  · exact Or.inr (Or.inl rfl)
  · exact Or.inr (Or.inr (Or.inl (Text.isDigit_of_mem_toString h)))
  · exact Or.inr (Or.inr (Or.inr rfl))

theorem toNat_of_mem_headerLine {n : Nat} {c : Char} (h : c ∈ headerLine n) :
    13 ≤ c.toNat ∧ c.toNat < 128 := by
  rcases mem_headerLine h with h | rfl | h | rfl
  · have hall : ∀ c ∈ headerName, decide (13 ≤ c.toNat ∧ c.toNat < 128) = true :=
      List.all_eq_true.1 (by decide)
    exact of_decide_eq_true (hall c h)
  · decide
  · have hc : 48 ≤ c.toNat ∧ c.toNat ≤ 57 := by
      simpa [Char.isDigit, UInt32.le_iff_toNat_le] using h
    omega
  · decide

def headerBytes (n : Nat) : Bytes := (headerLine n).map fun c ↦ c.toNat.toUInt8

theorem lineFeed_notMem_headerBytes (n : Nat) : 10 ∉ headerBytes n := by
  intro h
  obtain ⟨c, hc, he⟩ := List.mem_map.1 h
  have hb := toNat_of_mem_headerLine hc
  have ht := congrArg UInt8.toNat he
  simp only [UInt8.toNat_ofNat', UInt8.reduceToNat, Nat.toUInt8] at ht
  omega

theorem encode_headerLine (n : Nat) :
    Text.encode (String.ofList (headerLine n ++ ['\n'])) = headerBytes n ++ [10] := by
  rw [Text.encode_ofList_of_ascii, List.map_append]
  · rfl
  · intro c hc
    rcases List.mem_append.1 hc with hc | hc
    · exact (toNat_of_mem_headerLine hc).2
    · obtain rfl := List.mem_singleton.1 hc
      exact (by decide : '\n'.toNat < 128)

theorem encode_eq (message : String) : encode message =
    headerBytes message.utf8ByteSize ++ 10 :: 13 :: 10 :: Text.encode message := by
  have hh : "Content-Length: " ++ toString message.utf8ByteSize ++ "\r\n\r\n" =
      String.ofList (headerLine message.utf8ByteSize ++ ['\n']) ++ "\r\n" := by
    have hname : "Content-Length: ".toList = headerName ++ [' '] := by decide
    have hend : "\r\n\r\n".toList = ['\r', '\n', '\r', '\n'] := by decide
    have hbreak : "\r\n".toList = ['\r', '\n'] := by decide
    rw [← String.toList_inj]
    simp only [headerLine, String.toList_append, String.toList_ofList, hname, hend, hbreak]
    simp
  have he : Text.encode "\r\n" = [13, 10] :=
    Text.encode_ofList_of_ascii (s := ['\r', '\n']) (by simp)
  rw [encode, hh, Text.encode_append, encode_headerLine, he]
  simp only [List.append_assoc, List.cons_append, List.nil_append]

theorem trim_headerLine (n : Nat) :
    Text.trim (headerLine n ++ ['\n']) = headerName ++ ' ' :: (toString n).toList := by
  obtain ⟨d, hd⟩ : ∃ d, (toString n).toList.getLast? = some d := by
    cases h : (toString n).toList.getLast? with
    | none => exact absurd (List.getLast?_eq_none_iff.1 h) (Text.toList_toString_ne_nil n)
    | some d => exact ⟨d, rfl⟩
  have hl : (headerName ++ ' ' :: (toString n).toList).getLast? = some d := by
    rw [List.getLast?_append, List.getLast?_cons, hd]
    rfl
  have hs : headerLine n ++ ['\n'] =
      [] ++ ((headerName ++ ' ' :: (toString n).toList) ++ ['\r', '\n']) := by
    simp [headerLine]
  rw [hs]
  exact Text.trim_append (by simp) (List.all_eq_true.1 (by decide)) (c := 'C') rfl (by decide) hl
    (Text.isBlank_of_isDigit (Text.isDigit_of_mem_toString (List.mem_of_getLast? hd)))

theorem trim_value (n : Nat) : Text.trim (' ' :: (toString n).toList) = (toString n).toList := by
  obtain ⟨d, hd⟩ : ∃ d, (toString n).toList.getLast? = some d := by
    cases h : (toString n).toList.getLast? with
    | none => exact absurd (List.getLast?_eq_none_iff.1 h) (Text.toList_toString_ne_nil n)
    | some d => exact ⟨d, rfl⟩
  obtain ⟨c, hc⟩ : ∃ c, (toString n).toList.head? = some c := by
    cases h : (toString n).toList.head? with
    | none => exact absurd (List.head?_eq_none_iff.1 h) (Text.toList_toString_ne_nil n)
    | some c => exact ⟨c, rfl⟩
  have blank {x : Char} (hx : x ∈ (toString n).toList) : Text.isBlank x = false :=
    Text.isBlank_of_isDigit (Text.isDigit_of_mem_toString hx)
  have h := Text.trim_append (a := [' ']) (b := []) (List.all_eq_true.1 (by decide)) (by simp) hc
    (blank (List.mem_of_head? hc)) hd (blank (List.mem_of_getLast? hd))
  simpa using h

theorem length?_toString (n : Nat) :
    length? (toString n).toList = if n < UInt64.size then some n else none := by
  have hd : ∀ s, (toString n).toList ≠ '+' :: s := by
    intro s hs
    have hm : '+' ∈ (toString n).toList := by
      rw [hs]
      exact List.mem_cons_self
    exact absurd (Text.isDigit_of_mem_toString hm) (by decide)
  unfold length?
  split
  · rename_i s hs
    exact absurd hs (hd s)
  · simp only [Text.decimal?_toString]
    simp [Option.filter]

theorem stripStart?_append (p s : List Char) : Text.stripStart? p (p ++ s) = some s := by
  induction p with
  | nil => rfl
  | cons c p ih => simpa [Text.stripStart?] using ih

theorem readBody_encode (closed : Bool) (message : String) (rest : Bytes) :
    readBody closed message.utf8ByteSize (13 :: 10 :: (Text.encode message ++ rest)) =
      .message message rest := by
  have hr : (10 : UInt8) ∉ [13] := by decide
  have hcut : cutLine (13 :: 10 :: (Text.encode message ++ rest)) =
      ([13, 10], Text.encode message ++ rest) := cutLine_append hr
  have hblank : Text.decode? [13, 10] = some "\r\n" := by
    have he := Text.encode_ofList_of_ascii (s := ['\r', '\n']) (by simp)
    rw [← Text.decode?_encode "\r\n"]
    exact congrArg Text.decode? he.symm
  have hlen : ¬(Text.encode message ++ rest).length < message.utf8ByteSize := by
    rw [List.length_append, Text.length_encode]
    omega
  have htake : (Text.encode message ++ rest).take message.utf8ByteSize = Text.encode message :=
    List.take_left' (Text.length_encode message)
  have hdrop : (Text.encode message ++ rest).drop message.utf8ByteSize = rest :=
    List.drop_left' (Text.length_encode message)
  have hfeed : (13 :: 10 :: (Text.encode message ++ rest) : Bytes).contains 10 := by simp
  simp only [readBody, hcut, hblank, hlen, htake, hdrop, hfeed, Text.decode?_encode]
  simp

theorem readHeader_headerLine (closed : Bool) {n : Nat} (h : n ≤ maxBytes) (rest : Bytes) :
    readHeader closed (Text.trim (headerLine n ++ ['\n'])) rest = readBody closed n rest := by
  have hsize : maxBytes < UInt64.size := by decide
  have hn : length? (toString n).toList = some n := by
    rw [length?_toString, if_pos (by omega)]
  simp only [readHeader, trim_headerLine, stripStart?_append, trim_value, hn]
  exact if_neg (by omega)

theorem readHeader_of_lt (closed : Bool) {n : Nat} (h : maxBytes < n) (rest : Bytes) :
    ∃ e, readHeader closed (Text.trim (headerLine n ++ ['\n'])) rest = .failed e := by
  simp only [readHeader, trim_headerLine, stripStart?_append, trim_value, length?_toString]
  split
  · exact ⟨_, rfl⟩
  · rename_i length hlength
    split at hlength
    · rw [← Option.some.inj hlength, if_pos h]
      exact ⟨_, rfl⟩
    · cases hlength

theorem next_line (closed : Bool) {line rest : Bytes} {text : String} (h : 10 ∉ line)
    (hd : Text.decode? (line ++ [10]) = some text) :
    next closed (line ++ 10 :: rest) =
      if Text.allBlank text then next closed rest
      else readHeader closed (Text.trim text.toList) rest := by
  have hcut : cutLine (line ++ 10 :: rest) = (line ++ [10], rest) := cutLine_append h
  have hne : line ++ 10 :: rest ≠ [] := by simp
  have hfeed : (!closed && !(line ++ 10 :: rest).contains 10) = false := by simp
  rw [next]
  simp only [hne, dite_false, hfeed, hcut, hd]
  simp

theorem next_encode_eq (closed : Bool) (message : String) (rest : Bytes) :
    next closed (encode message ++ rest) =
      readHeader closed (Text.trim (headerLine message.utf8ByteSize ++ ['\n']))
        (13 :: 10 :: (Text.encode message ++ rest)) := by
  have hs : encode message ++ rest = headerBytes message.utf8ByteSize ++
      10 :: 13 :: 10 :: (Text.encode message ++ rest) := by
    rw [encode_eq, List.append_assoc]
    rfl
  have hline : Text.decode? (headerBytes message.utf8ByteSize ++ [10]) =
      some (String.ofList (headerLine message.utf8ByteSize ++ ['\n'])) := by
    rw [← encode_headerLine, Text.decode?_encode]
  have hblank : Text.allBlank (String.ofList (headerLine message.utf8ByteSize ++ ['\n'])) =
      false := by
    rw [Text.allBlank, String.toList_ofList]
    rfl
  rw [hs, next_line closed (lineFeed_notMem_headerBytes _) hline, hblank, String.toList_ofList]
  rfl

/-- A framed message is the next message of a stream, whatever follows it. -/
theorem next_encode (closed : Bool) {message : String} (h : message.utf8ByteSize ≤ maxBytes)
    (rest : Bytes) : next closed (encode message ++ rest) = .message message rest := by
  rw [next_encode_eq, readHeader_headerLine closed h]
  exact readBody_encode closed message rest

theorem next_encode_of_lt (closed : Bool) {message : String} (h : maxBytes < message.utf8ByteSize)
    (rest : Bytes) : ∃ e, next closed (encode message ++ rest) = .failed e := by
  rw [next_encode_eq]
  exact readHeader_of_lt closed h _

end TypedLoader.Frame
