import TypedLoader.Checker.Error
import TypedLoader.Text.Blank
import TypedLoader.Text.Digits
import TypedLoader.Text.Search
import TypedLoader.Text.Utf8

namespace TypedLoader.Frame

def maxBytes : Nat := 64 * 1024 * 1024

def headerName : List Char := "Content-Length:".toList

/-- A message behind a header line with its length and an empty line. -/
def encode (message : String) : Bytes :=
  Text.encode ("Content-Length: " ++ toString message.utf8ByteSize ++ "\r\n\r\n") ++
    Text.encode message

inductive Incoming where
  | message (text : String) (rest : Bytes)
  /-- The end of the stream, at a boundary between messages. -/
  | finished
  | failed (e : CheckError)
  /-- Bytes that have not arrived yet decide. -/
  | unknown

/-- The bytes up to the first line feed, and those behind it; without a line
feed everything is one line. -/
def cutLine (s : Bytes) : Bytes × Bytes :=
  match Text.cutAt? 10 s with
  | some (line, rest) => (line ++ [10], rest)
  | none => (s, [])

def length? (s : List Char) : Option Nat :=
  let digits := match s with
    | '+' :: s => s
    | s => s
  (Text.decimal? digits).filter (· < UInt64.size)

def readBody (closed : Bool) (length : Nat) (s : Bytes) : Incoming :=
  if !closed && !s.contains 10 then .unknown
  else
    let (separator, rest) := cutLine s
    if (Text.decode? separator).isNone then .failed .stream
    else if rest.length < length then
      if closed then .failed .stream else .unknown
    else
      match Text.decode? (rest.take length) with
      | some text => .message text (rest.drop length)
      | none => .failed (.badHeader "message body is not UTF-8")

def readHeader (closed : Bool) (line : List Char) (rest : Bytes) : Incoming :=
  match Text.stripStart? headerName line with
  | none => .message (String.ofList line) rest
  | some value =>
    match length? (Text.trim value) with
    | none => .failed (.badHeader (String.ofList line))
    | some length =>
      if maxBytes < length then .failed (.frameTooLarge length maxBytes)
      else readBody closed length rest

theorem length_cutLine (s : Bytes) (h : s ≠ []) : (cutLine s).2.length < s.length := by
  have key : ∀ (s a b : Bytes), Text.cutAt? 10 s = some (a, b) → b.length < s.length := by
    intro s
    induction s with
    | nil => simp [Text.cutAt?]
    | cons c s ih =>
      intro a b h
      unfold Text.cutAt? at h
      split at h
      · simp only [Option.some.injEq, Prod.mk.injEq] at h
        simp [← h.2]
      · obtain ⟨⟨a', b'⟩, h', e⟩ := Option.map_eq_some_iff.1 h
        simp only [Prod.mk.injEq] at e
        have := ih a' b' h'
        rw [← e.2]
        simp only [List.length_cons]
        omega
  unfold cutLine
  split
  · rename_i line rest e
    exact key s line rest e
  · simpa using List.length_pos_iff.2 h

/-- The next message of a stream, given the bytes that have arrived and whether
more can follow. Blank lines before a message are skipped. -/
def next (closed : Bool) (s : Bytes) : Incoming :=
  if h : s = [] then if closed then .finished else .unknown
  else if !closed && !s.contains 10 then .unknown
  else
    match Text.decode? (cutLine s).1 with
    | none => .failed .stream
    | some line =>
      have := length_cutLine s h
      if Text.allBlank line then next closed (cutLine s).2
      else readHeader closed (Text.trim line.toList) (cutLine s).2
termination_by s.length

theorem length_cutLine_le (s : Bytes) : (cutLine s).2.length ≤ s.length := by
  by_cases h : s = []
  · simp [h, cutLine, Text.cutAt?]
  · exact Nat.le_of_lt (length_cutLine s h)

theorem length_of_readBody {closed : Bool} {length : Nat} {s rest : Bytes} {text : String}
    (h : readBody closed length s = .message text rest) : rest.length ≤ s.length := by
  have := length_cutLine_le s
  unfold readBody at h
  simp only at h
  repeat' split at h
  all_goals simp only [Incoming.message.injEq, reduceCtorEq] at h
  rw [← h.2, List.length_drop]
  omega

theorem length_of_readHeader {closed : Bool} {line : List Char} {s rest : Bytes} {text : String}
    (h : readHeader closed line s = .message text rest) : rest.length ≤ s.length := by
  unfold readHeader at h
  split at h
  · simp only [Incoming.message.injEq] at h
    exact Nat.le_of_eq (by rw [h.2])
  · split at h
    · simp at h
    · split at h
      · simp at h
      · exact length_of_readBody h

theorem length_of_next {closed : Bool} {s rest : Bytes} {text : String}
    (h : next closed s = .message text rest) : rest.length < s.length := by
  fun_induction next closed s with
  | case1 => simp at h
  | case2 => simp at h
  | case3 => simp at h
  | case4 => simp at h
  | case5 s _ _ line _ cut _ ih =>
    have := ih h
    omega
  | case6 s _ _ line _ cut _ =>
    have := length_of_readHeader h
    omega

/-- All messages of a stream that has ended, and the error that cut it short. -/
def readAll (s : Bytes) : List String × Option CheckError :=
  match h : next true s with
  | .message text rest =>
    have := length_of_next h
    let (texts, failure) := readAll rest
    (text :: texts, failure)
  | .failed e => ([], some e)
  | _ => ([], none)
termination_by s.length

end TypedLoader.Frame
