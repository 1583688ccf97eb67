namespace TypedLoader.Text

def digit? (c : Char) : Option Nat :=
  if '0' ≤ c ∧ c ≤ '9' then some (c.toNat - '0'.toNat) else none

def isDigit (c : Char) : Bool := (digit? c).isSome

def hexDigit? (c : Char) : Option Nat :=
  if '0' ≤ c ∧ c ≤ '9' then some (c.toNat - '0'.toNat)
  else if 'a' ≤ c ∧ c ≤ 'f' then some (c.toNat - 'a'.toNat + 10)
  else if 'A' ≤ c ∧ c ≤ 'F' then some (c.toNat - 'A'.toNat + 10)
  else none

/-- The number that digits denote in base `base`, most significant first. -/
def ofDigits (base : Nat) (ds : List Nat) : Nat := ds.foldl (fun n d ↦ n * base + d) 0

def decimal? (s : List Char) : Option Nat :=
  if s.isEmpty then none else (s.mapM digit?).map (ofDigits 10)

def hexadecimal? (s : List Char) : Option Nat :=
  if s.isEmpty then none else (s.mapM hexDigit?).map (ofDigits 16)

def signed? : List Char → Option Int
  | '-' :: s => (decimal? s).map fun n ↦ -(n : Int)
  | '+' :: s => (decimal? s).map fun n ↦ (n : Int)
  | s => (decimal? s).map fun n ↦ (n : Int)

/-- A decimal numeral with an optional sign, of a number that fits into 64 bits
with its sign. -/
def signed64? (s : List Char) : Option Int :=
  (signed? s).filter fun n ↦ -(UInt64.size : Int) ≤ 2 * n && 2 * n < UInt64.size

def hexChar (n : Nat) : Char :=
  if n < 10 then Char.ofNat ('0'.toNat + n) else Char.ofNat ('a'.toNat + (n - 10))

def hexByte (b : UInt8) : List Char := [hexChar (b.toNat / 16), hexChar (b.toNat % 16)]

def hex (bytes : List UInt8) : String := String.ofList (bytes.flatMap hexByte)

end TypedLoader.Text
