import TypedLoader.Gzip.Checksum

namespace TypedLoader.Gzip

abbrev Bits := List Bool

def bitsOf (bytes : Bytes) : Bits :=
  bytes.flatMap fun b ↦ (List.range 8).map fun i ↦ b.toNat.testBit i

def takeNumber? : Nat → Bits → Option (Nat × Bits)
  | 0, s => some (0, s)
  | _ + 1, [] => none
  | n + 1, b :: s => do
    let (high, s) ← takeNumber? n s
    return (b.toNat + 2 * high, s)

def alignByte (s : Bits) : Bits := s.drop (s.length % 8)

/-- A prefix code: how many symbols have a code of each length from 1 to 15, and
the symbols in the order of their codes. -/
structure PrefixCode where
  counts : List Nat
  symbols : Array Nat

namespace PrefixCode

def maxLength : Nat := 15

/-- The code with the given lengths, in which a length of 0 means that a symbol
does not occur. The lengths have to fit exactly, unless at most one symbol
occurs. -/
def ofLengths? (lengths : List Nat) : Option PrefixCode :=
  let indexed := lengths.zipIdx
  let symbolsOf (n : Nat) : List Nat := indexed.filterMap fun (l, i) ↦ if l = n then some i else none
  let byLength := (List.range maxLength).map fun n ↦ symbolsOf (n + 1)
  let space := byLength.zipIdx.foldl
    (fun total (l, n) ↦ total + l.length * Nat.pow 2 (maxLength - 1 - n)) 0
  let symbols := byLength.flatten
  if space = Nat.pow 2 maxLength || symbols.length ≤ 1 then
    some ⟨byLength.map List.length, symbols.toArray⟩
  else none

/-- Reads a symbol. `code` are the bits so far, `first` the first code of the
length at hand and `index` the number of symbols with shorter codes. -/
def read? (c : PrefixCode) (code first index : Nat) : List Nat → Bits → Option (Nat × Bits)
  | [], _ => none
  | _, [] => none
  | count :: counts, b :: s =>
    let code := code + b.toNat
    if code < first + count then (c.symbols[index + (code - first)]?).map (·, s)
    else read? c (2 * code) (2 * (first + count)) (index + count) counts s

def next? (c : PrefixCode) (s : Bits) : Option (Nat × Bits) := c.read? 0 0 0 c.counts s

end PrefixCode

/-- The base and the number of extra bits of each length symbol from 257. -/
def lengthCodes : List (Nat × Nat) :=
  [(3, 0), (4, 0), (5, 0), (6, 0), (7, 0), (8, 0), (9, 0), (10, 0), (11, 1), (13, 1), (15, 1),
    (17, 1), (19, 2), (23, 2), (27, 2), (31, 2), (35, 3), (43, 3), (51, 3), (59, 3), (67, 4),
    (83, 4), (99, 4), (115, 4), (131, 5), (163, 5), (195, 5), (227, 5), (258, 0)]

def distanceCodes : List (Nat × Nat) :=
  [(1, 0), (2, 0), (3, 0), (4, 0), (5, 1), (7, 1), (9, 2), (13, 2), (17, 3), (25, 3), (33, 4),
    (49, 4), (65, 5), (97, 5), (129, 6), (193, 6), (257, 7), (385, 7), (513, 8), (769, 8),
    (1025, 9), (1537, 9), (2049, 10), (3073, 10), (4097, 11), (6145, 11), (8193, 12), (12289, 12),
    (16385, 13), (24577, 13)]

def extended? (codes : List (Nat × Nat)) (symbol : Nat) (s : Bits) : Option (Nat × Bits) := do
  let (base, extra) ← codes[symbol]?
  let (n, s) ← takeNumber? extra s
  return (base + n, s)

def copy? (out : Array UInt8) (distance : Nat) : Nat → Option (Array UInt8)
  | 0 => some out
  | length + 1 => do
    if out.size < distance then failure
    let b ← out[out.size - distance]?
    copy? (out.push b) distance length

/-- A compressed block: literal bytes and repetitions up to the end symbol. -/
def inflateBlock? (literals distances : PrefixCode) (out : Array UInt8) (s : Bits) :
    Nat → Option (Array UInt8 × Bits)
  | 0 => none
  | fuel + 1 => do
    let (symbol, s) ← literals.next? s
    if symbol < 256 then inflateBlock? literals distances (out.push (UInt8.ofNat symbol)) s fuel
    else if symbol = 256 then return (out, s)
    else
      let (length, s) ← extended? lengthCodes (symbol - 257) s
      let (symbol, s) ← distances.next? s
      let (distance, s) ← extended? distanceCodes symbol s
      let out ← copy? out distance length
      inflateBlock? literals distances out s fuel

/-- A block that is stored as it is, after its length and the complement. -/
def storedBlock? (out : Array UInt8) (s : Bits) : Option (Array UInt8 × Bits) := do
  let (length, s) ← takeNumber? 16 (alignByte s)
  let (complement, s) ← takeNumber? 16 s
  if length + complement ≠ UInt16.size - 1 then failure
  go length out s
where
  go : Nat → Array UInt8 → Bits → Option (Array UInt8 × Bits)
    | 0, out, s => some (out, s)
    | n + 1, out, s => do
      let (b, s) ← takeNumber? 8 s
      go n (out.push (UInt8.ofNat b)) s

def fixedCodes? : Option (PrefixCode × PrefixCode) := do
  let lengths := List.replicate 144 8 ++ List.replicate 112 9 ++ List.replicate 24 7 ++
    List.replicate 8 8
  return (← PrefixCode.ofLengths? lengths, ← PrefixCode.ofLengths? (List.replicate 32 5))

def lengthOrder : List Nat := [16, 17, 18, 0, 8, 7, 9, 6, 10, 5, 11, 4, 12, 3, 13, 2, 14, 1, 15]

def takeNumbers? (bits : Nat) : Nat → Bits → Option (List Nat × Bits)
  | 0, s => some ([], s)
  | n + 1, s => do
    let (first, s) ← takeNumber? bits s
    let (rest, s) ← takeNumbers? bits n s
    return (first :: rest, s)

/-- Reads `total` code lengths, some of them as repetitions; `read` holds them
in reverse. -/
def readLengths? (code : PrefixCode) (total : Nat) (read : List Nat) (s : Bits) :
    Nat → Option (List Nat × Bits)
  | 0 => none
  | fuel + 1 => do
    if total < read.length then failure
    if read.length = total then return (read.reverse, s)
    let (symbol, s) ← code.next? s
    if symbol < 16 then readLengths? code total (symbol :: read) s fuel
    else
      let (value, base, bits) ← match symbol, read with
        | 16, last :: _ => some (last, 3, 2)
        | 16, [] => none
        | 17, _ => some (0, 3, 3)
        | _, _ => some (0, 11, 7)
      let (n, s) ← takeNumber? bits s
      readLengths? code total (List.replicate (base + n) value ++ read) s fuel

def ownCodes? (s : Bits) : Option ((PrefixCode × PrefixCode) × Bits) := do
  let (literals, s) ← takeNumber? 5 s
  let (distances, s) ← takeNumber? 5 s
  let (given, s) ← takeNumber? 4 s
  if 286 < literals + 257 || 30 < distances + 1 then failure
  let (lengths, s) ← takeNumbers? 3 (given + 4) s
  let lengthOf (symbol : Nat) : Nat := ((lengthOrder.zip lengths).lookup symbol).getD 0
  let code ← PrefixCode.ofLengths? ((List.range 19).map lengthOf)
  let total := literals + 257 + distances + 1
  let (lengths, s) ← readLengths? code total [] s (total + 1)
  let (a, b) := lengths.splitAt (literals + 257)
  return ((← PrefixCode.ofLengths? a, ← PrefixCode.ofLengths? b), s)

/-- The blocks of a stream up to the last one. Every block takes bits, so the
number of bits bounds the number of blocks. -/
def inflate? (out : Array UInt8) (s : Bits) : Nat → Option (Array UInt8 × Bits)
  | 0 => none
  | fuel + 1 => do
    let (last, s) ← takeNumber? 1 s
    let (kind, s) ← takeNumber? 2 s
    let (out, s) ← match kind with
      | 0 => storedBlock? out s
      | 1 => do
        let (literals, distances) ← fixedCodes?
        inflateBlock? literals distances out s s.length
      | 2 => do
        let ((literals, distances), s) ← ownCodes? s
        inflateBlock? literals distances out s s.length
      | _ => none
    if last = 1 then return (out, s) else inflate? out s fuel

end TypedLoader.Gzip
