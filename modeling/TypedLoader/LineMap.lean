import TypedLoader.Text.Utf8

namespace TypedLoader

structure Position where
  line : Nat
  character : Nat
deriving DecidableEq, Repr, Inhabited

/-- The byte offsets at which lines start, in increasing order. -/
structure LineMap where
  starts : List Nat

namespace LineMap

/-- The line starts after `offset`. A carriage return ends a line of its own
unless a line feed follows. -/
def startsFrom (offset : Nat) : List Char → List Nat
  | [] => []
  | '\n' :: rest => (offset + 1) :: startsFrom (offset + 1) rest
  | '\r' :: '\n' :: rest => (offset + 2) :: startsFrom (offset + 2) rest
  | '\r' :: rest => (offset + 1) :: startsFrom (offset + 1) rest
  | c :: rest => startsFrom (offset + c.utf8Size) rest

def ofText (s : String) : LineMap := ⟨0 :: startsFrom 0 s.toList⟩

def lineCount (m : LineMap) : Nat := m.starts.length

def lineStart? (m : LineMap) (line : Nat) : Option Nat := m.starts[line]?

def lineOf (m : LineMap) (offset : Nat) : Nat :=
  (m.starts.filter (· ≤ offset)).length - 1

/-- The characters between two byte offsets, if both lie between characters. -/
def slice? : (skip take : Nat) → List Char → Option (List Char)
  | 0, 0, _ => some []
  | _, _, [] => none
  | 0, take, c :: rest =>
    if c.utf8Size ≤ take then (slice? 0 (take - c.utf8Size) rest).map (c :: ·) else none
  | skip, take, c :: rest =>
    if c.utf8Size ≤ skip then slice? (skip - c.utf8Size) take rest else none

/-- The place of a byte offset. Offsets past the end stand for the end; an
offset inside a character counts no units of its line. -/
def position (m : LineMap) (offset : Nat) (s : String) : Position :=
  let line := m.lineOf offset
  let stop := min offset s.utf8ByteSize
  let start := min ((m.lineStart? line).getD 0) stop
  let units := (slice? start (stop - start) s.toList).getD []
  ⟨line, Text.length16 units⟩

end LineMap

end TypedLoader
