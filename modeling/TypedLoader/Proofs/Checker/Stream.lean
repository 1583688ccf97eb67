import TypedLoader.Proofs.Checker.Frame

namespace TypedLoader.Frame

/-- Reading gives these messages in turn and leaves the rest of the stream. -/
inductive Reads (closed : Bool) : Bytes → List String → Bytes → Prop
  | nil (s : Bytes) : Reads closed s [] s
  | cons {s later rest : Bytes} {text : String} {texts : List String}
      (h : next closed s = .message text later) (hlater : Reads closed later texts rest) :
      Reads closed s (text :: texts) rest

theorem readAll_of_message {s rest : Bytes} {text : String} (h : next true s = .message text rest) :
    readAll s = (text :: (readAll rest).1, (readAll rest).2) := by
  rw [readAll]
  split
  · rename_i text' rest' h'
    obtain ⟨rfl, rfl⟩ := Incoming.message.inj (h'.symm.trans h)
    rfl
  · rename_i h'
    cases h'.symm.trans h
  · rename_i h' _
    exact absurd h (h' text rest)

theorem readAll_of_failed {s : Bytes} {e : CheckError} (h : next true s = .failed e) :
    readAll s = ([], some e) := by
  rw [readAll]
  split
  · rename_i h'
    cases h'.symm.trans h
  · rename_i h'
    rw [Incoming.failed.inj (h'.symm.trans h)]
  · rename_i _ h'
    exact absurd h (h' e)

theorem readAll_of_finished {s : Bytes} (h : next true s = .finished) : readAll s = ([], none) := by
  rw [readAll]
  split
  · rename_i h'
    cases h'.symm.trans h
  · rename_i h'
    cases h'.symm.trans h
  · rfl

theorem Reads.readAll {s rest : Bytes} {texts : List String} (h : Reads true s texts rest) :
    Frame.readAll s = (texts ++ (Frame.readAll rest).1, (Frame.readAll rest).2) := by
  induction h with
  | nil s => rfl
  | cons h _ ih => rw [readAll_of_message h, ih, List.cons_append]

theorem next_ne_unknown (s : Bytes) : next true s ≠ .unknown := by
  have hbody (length : Nat) (s : Bytes) : readBody true length s ≠ .unknown := by
    unfold readBody
    simp only [Bool.not_true, Bool.false_and, Bool.false_eq_true, if_false, if_true]
    repeat' split
    all_goals
      intro h
      cases h
  have hheader (line : List Char) (s : Bytes) : readHeader true line s ≠ .unknown := by
    unfold readHeader
    split
    · intro h
      cases h
    · split
      · intro h
        cases h
      · split
        · intro h
          cases h
        · exact hbody _ s
  induction s using next.induct true with
  | case1 _ =>
    rw [next]
    intro h
    cases h
  | case2 h => exact absurd rfl h
  | case3 s _ h => simp at h
  | case4 s hs hclosed hd =>
    rw [next, dif_neg hs, if_neg hclosed]
    simp only [hd]
    intro h
    cases h
  | case5 s hs hclosed line hd _ hblank ih =>
    rw [next, dif_neg hs, if_neg hclosed]
    simp only [hd, hblank, if_true]
    exact ih
  | case6 s hs hclosed line hd _ hblank =>
    rw [next, dif_neg hs, if_neg hclosed]
    simp only [hd, hblank]
    exact hheader _ _

theorem reads_readAll (s : Bytes) : ∃ rest, Reads true s (readAll s).1 rest ∧
    (next true rest = .finished ∧ (readAll s).2 = none ∨
      ∃ e, next true rest = .failed e ∧ (readAll s).2 = some e) := by
  induction hn : s.length using Nat.strongRecOn generalizing s with
  | ind n ih =>
    cases hs : next true s with
    | message text later =>
      have hlt := length_of_next hs
      obtain ⟨rest, hreads, hend⟩ := ih later.length (hn ▸ hlt) later rfl
      rw [readAll_of_message hs]
      exact ⟨rest, .cons hs hreads, hend⟩
    | finished =>
      rw [readAll_of_finished hs]
      exact ⟨s, .nil s, Or.inl ⟨hs, rfl⟩⟩
    | failed e =>
      rw [readAll_of_failed hs]
      exact ⟨s, .nil s, Or.inr ⟨e, hs, rfl⟩⟩
    | unknown => exact absurd hs (next_ne_unknown s)

def IsBlankLine (line : String) : Prop := '\n' ∉ line.toList ∧ Text.allBlank line = true

def blankLines (lines : List String) : Bytes := lines.flatMap fun line ↦ Text.encode (line ++ "\n")

theorem next_encode_line (closed : Bool) {line : String} (h : '\n' ∉ line.toList) (rest : Bytes) :
    next closed (Text.encode (line ++ "\n") ++ rest) =
      if Text.allBlank line then next closed rest
      else readHeader closed (Text.trim line.toList) rest := by
  have hfeed : ∀ c ∈ ['\n'], Text.isBlank c := List.forall_mem_singleton.2 (by decide)
  have hend : ("\n" : String).toList = ['\n'] := rfl
  have hdecode : Text.decode? (Text.encode line ++ [10]) = some (line ++ "\n") := by
    rw [← Text.encode_line, Text.decode?_encode]
  have hblank : Text.allBlank (line ++ "\n") = Text.allBlank line := by
    rw [Text.allBlank, Text.allBlank, String.toList_append, List.all_append, hend]
    exact Bool.and_true _
  have htrim : Text.trim (line ++ "\n").toList = Text.trim line.toList := by
    rw [String.toList_append, hend, Text.trim_append_of_blank _ hfeed]
  have hsplit : Text.encode (line ++ "\n") ++ rest = Text.encode line ++ 10 :: rest := by
    rw [Text.encode_line, List.append_assoc]
    rfl
  rw [hsplit, next_line closed (Text.lineFeed_notMem_encode h) hdecode, hblank, htrim]

theorem next_blankLines (closed : Bool) {lines : List String} (h : ∀ line ∈ lines, IsBlankLine line)
    (rest : Bytes) : next closed (blankLines lines ++ rest) = next closed rest := by
  induction lines with
  | nil => rfl
  | cons line lines ih =>
    obtain ⟨⟨hline, hblank⟩, hlines⟩ := List.forall_mem_cons.1 h
    rw [blankLines, List.flatMap_cons, List.append_assoc, next_encode_line closed hline,
      if_pos hblank]
    exact ih hlines

theorem stripStart?_eq_none_iff {p s : List Char} : Text.stripStart? p s = none ↔ ¬p <+: s := by
  induction p generalizing s with
  | nil => simp [Text.stripStart?]
  | cons c p ih =>
    cases s with
    | nil => simp [Text.stripStart?]
    | cons d s =>
      rw [Text.stripStart?, List.cons_prefix_cons]
      split
      · rename_i hcd
        rw [ih, eq_of_beq hcd]
        simp
      · rename_i hcd
        have hne : c ≠ d := by simpa using hcd
        simp [hne]

inductive Item where
  | framed (message : String)
  | typed (line : String)

namespace Item

def bytes : Item → Bytes
  | framed message => encode message
  | typed line => Text.encode (line ++ "\n")

def message : Item → String
  | framed message => message
  | typed line => String.ofList (Text.trim line.toList)

def Readable : Item → Prop
  | framed message => message.utf8ByteSize ≤ maxBytes
  | typed line => '\n' ∉ line.toList ∧ Text.trim line.toList ≠ [] ∧
      ¬headerName <+: Text.trim line.toList

theorem next_bytes (closed : Bool) {i : Item} (h : i.Readable) (rest : Bytes) :
    next closed (i.bytes ++ rest) = .message i.message rest := by
  cases i with
  | framed message => exact next_encode closed h rest
  | typed line =>
    obtain ⟨hline, hne, hheader⟩ := h
    have hblank : ¬Text.allBlank line = true := by
      rw [Text.allBlank, List.all_eq_true]
      exact fun hall ↦ hne (Text.trim_eq_nil_iff.2 hall)
    rw [bytes, next_encode_line closed hline, if_neg hblank, readHeader,
      stripStart?_eq_none_iff.2 hheader]
    rfl

end Item

def stream (tail : List String) : List (List String × Item) → Bytes
  | [] => blankLines tail
  | (gap, i) :: items => blankLines gap ++ (i.bytes ++ stream tail items)

section Streams

variable {items : List (List String × Item)} {tail : List String}

theorem reads_stream (closed : Bool) (hgaps : ∀ p ∈ items, ∀ line ∈ p.1, IsBlankLine line)
    (hitems : ∀ p ∈ items, p.2.Readable) :
    Reads closed (stream tail items) (items.map (·.2.message)) (blankLines tail) := by
  induction items with
  | nil => exact .nil _
  | cons p items ih =>
    obtain ⟨hgap, hgaps⟩ := List.forall_mem_cons.1 hgaps
    obtain ⟨hitem, hitems⟩ := List.forall_mem_cons.1 hitems
    refine .cons ?_ (ih hgaps hitems)
    exact (next_blankLines closed hgap _).trans (p.2.next_bytes closed hitem _)

/-- Frames are read back as they were sent, whatever they say, and lines without the white
space around them; then the stream has ended, or waits for more. -/
theorem messages_of_stream (hgaps : ∀ p ∈ items, ∀ line ∈ p.1, IsBlankLine line)
    (hitems : ∀ p ∈ items, p.2.Readable) (htail : ∀ line ∈ tail, IsBlankLine line) :
    readAll (stream tail items) = (items.map (·.2.message), none) ∧
      ∀ closed, ∃ rest, Reads closed (stream tail items) (items.map (·.2.message)) rest ∧
        next closed rest = if closed then .finished else .unknown := by
  have hend (closed : Bool) : next closed (blankLines tail) =
      if closed then .finished else .unknown := by
    have htail := next_blankLines closed htail []
    rw [List.append_nil] at htail
    rw [htail, next, dif_pos rfl]
  refine ⟨?_, fun closed ↦ ⟨_, reads_stream closed hgaps hitems, hend closed⟩⟩
  rw [(reads_stream true hgaps hitems).readAll, readAll_of_finished (hend true), List.append_nil]

end Streams

/-- A frame that looks like a header, a line with white space around it and an empty frame. -/
def mixedItems : List (List String × Item) :=
  [(["", "\t\r"], .framed "Content-Length: 3\r\n\r\n"), ([], .typed " null \r"),
    ([" "], .framed "")]

theorem messages_of_mixedItems : readAll (stream [" ", ""] mixedItems) =
    (["Content-Length: 3\r\n\r\n", "null", ""], none) := by
  have hgaps : ∀ p ∈ mixedItems, ∀ line ∈ p.1, IsBlankLine line := by
    simp [mixedItems, IsBlankLine, Text.allBlank, Text.isBlank]
  have hitems : ∀ p ∈ mixedItems, p.2.Readable := by
    refine List.forall_mem_cons.2 ⟨?_, List.forall_mem_cons.2 ⟨?_, List.forall_mem_singleton.2 ?_⟩⟩
    · exact (by decide : "Content-Length: 3\r\n\r\n".utf8ByteSize ≤ maxBytes)
    · have htrim : Text.trim " null \r".toList = ['n', 'u', 'l', 'l'] := by decide
      have hheader : ¬headerName <+: ['n', 'u', 'l', 'l'] := by decide
      exact ⟨by decide, by rw [htrim]; exact List.cons_ne_nil _ _, by rw [htrim]; exact hheader⟩
    · exact Nat.zero_le _
  have htail : ∀ line ∈ [" ", ""], IsBlankLine line := by
    simp [IsBlankLine, Text.allBlank, Text.isBlank]
  have htrimmed : mixedItems.map (·.2.message) =
      ["Content-Length: 3\r\n\r\n", "null", ""] := by decide
  rw [(messages_of_stream hgaps hitems htail).1, htrimmed]

end TypedLoader.Frame
