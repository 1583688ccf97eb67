import TypedLoader.Json.Basic
import TypedLoader.Text.Digits

namespace TypedLoader.Json

/-- A piece of a quoted string: a character, or a UTF-16 unit by its escape. -/
inductive Piece where
  | char (c : Char)
  | unit (n : Nat)
deriving DecidableEq, Repr

structure Numeral where
  negative : Bool
  whole : List Nat
  fraction : Option (List Nat)
  exponent : Option (Bool × List Nat)
deriving DecidableEq, Repr

/-- A text whose structure has been read, while strings and numbers have only been checked for
their form. `value?` refuses numbers out of range and surrogates that do not pair up. -/
inductive Draft where
  | null
  | bool (b : Bool)
  | num (n : Numeral)
  | str (s : List Piece)
  | arr (items : List Draft)
  | obj (members : List (List Piece × Draft))
deriving Inhabited

/-- The deepest nesting of arrays and objects in a value. -/
def maxDepth : Nat := 127

/-- The text that pieces stand for: units of a surrogate pair make one
character, and a surrogate alone is refused. -/
def Piece.text? : List Piece → Option (List Char)
  | [] => some []
  | .char c :: rest => (Piece.text? rest).map (c :: ·)
  | .unit n :: .unit m :: rest =>
    if 0xD800 ≤ n ∧ n ≤ 0xDBFF then
      if 0xDC00 ≤ m ∧ m ≤ 0xDFFF then
        (Piece.text? rest).map (Char.ofNat (0x10000 + (n - 0xD800) * 0x400 + (m - 0xDC00)) :: ·)
      else none
    else if 0xDC00 ≤ n ∧ n ≤ 0xDFFF then none
    else (Piece.text? (.unit m :: rest)).map (Char.ofNat n :: ·)
  | .unit n :: rest =>
    if 0xD800 ≤ n ∧ n ≤ 0xDFFF then none
    else (Piece.text? rest).map (Char.ofNat n :: ·)

def Piece.string? (s : List Piece) : Option String := (Piece.text? s).map String.ofList

namespace Numeral

/-- Splits a numeral into its parts: a sign, digits without a leading zero, a
fraction and an exponent. -/
def ofChars? (s : List Char) : Option Numeral := do
  let (negative, s) := match s with
    | '-' :: s => (true, s)
    | s => (false, s)
  let whole := s.takeWhile Text.isDigit
  let s := s.dropWhile Text.isDigit
  if whole.isEmpty || (whole.head? == some '0' && 1 < whole.length) then failure
  let (fraction, s) ← match s with
    | '.' :: s =>
      let digits := s.takeWhile Text.isDigit
      if digits.isEmpty then none else some (some digits, s.dropWhile Text.isDigit)
    | s => some (none, s)
  let exponent ← match s with
    | [] => some none
    | e :: s =>
      if e = 'e' ∨ e = 'E' then
        let (down, s) := match s with
          | '-' :: s => (true, s)
          | '+' :: s => (false, s)
          | s => (false, s)
        if s.isEmpty || !s.all Text.isDigit then none else some (some (down, s))
      else none
  return {
    negative
    whole := whole.filterMap Text.digit?
    fraction := fraction.map (·.filterMap Text.digit?)
    exponent := exponent.map fun (down, s) ↦ (down, s.filterMap Text.digit?) }

/-- Collects digits into a number of 64 bits, up to the digit that would
overflow it; gives the number and how many digits were left out. -/
def collect (n : Nat) : List Nat → Nat × Nat
  | [] => (n, 0)
  | d :: ds => if n * 10 + d < UInt64.size then collect (n * 10 + d) ds else (n, ds.length + 1)

/-- `n * 10 ^ e`, with one rounding for `n` and one for the power; a magnitude
too large is refused. Powers beyond `10 ^ 308` are taken out one at a time. -/
def scale? (negative : Bool) (n : Nat) (e : Int) : Option Binary64 :=
  go (Binary64.ofRatio false n 1) e ((-e).toNat / 308 + 1) |>.map fun x ↦
    if negative then x.neg else x
where
  go (x : Binary64) (e : Int) : Nat → Option Binary64
    | 0 => some x
    | fuel + 1 =>
      if 308 < e then if x = .zero then some x else none
      else if 0 ≤ e then
        let y := x.mul (Binary64.ofRatio false (Nat.pow 10 e.toNat) 1)
        if y.isFinite then some y else none
      else if -308 ≤ e then
        some (x.div (Binary64.ofRatio false (Nat.pow 10 (-e).toNat) 1))
      else if x = .zero then some x
      else go (x.div (Binary64.ofRatio false (Nat.pow 10 308) 1)) (e + 308) fuel

/-- The number of a numeral: an integer when it is written without fraction
and exponent and fits, a binary fraction otherwise. Minus zero is a fraction. -/
def number? (n : Numeral) : Option Number :=
  let (whole, left) := collect 0 n.whole
  match n.fraction, n.exponent with
  | none, none =>
    if 0 < left then (scale? n.negative whole left).map .float
    else if !n.negative then some (.int whole)
    else if 0 < whole ∧ 2 * whole ≤ UInt64.size then some (.int (-(whole : Int)))
    else (scale? true whole 0).map .float
  | fraction, exponent =>
    let digits := fraction.getD []
    let (significand, skipped) := collect whole digits
    let e : Int := left - ((digits.length - skipped : Nat) : Int)
    match exponent with
    | none => (scale? n.negative significand e).map .float
    | some (down, ds) =>
      let size := Text.ofDigits 10 ds
      if UInt32.size ≤ 2 * size then
        if significand ≠ 0 ∧ !down then none
        else some (.float (Binary64.pack n.negative 0 0))
      else
        (scale? n.negative significand (if down then e - size else e + size)).map .float

end Numeral

mutual

/-- The value of a draft whose arrays and objects nest at most `depth` deep. -/
def Draft.within? (depth : Nat) : Draft → Option Json
  | .null => some .null
  | .bool b => some (.bool b)
  | .num n => n.number?.map .num
  | .str s => (Piece.string? s).map .str
  | .arr items =>
    match depth with
    | 0 => none
    | depth + 1 => (Draft.itemsWithin? depth items).map .arr
  | .obj members =>
    match depth with
    | 0 => none
    | depth + 1 => (Draft.membersWithin? depth members).map fun ms ↦ .obj (Object.ofMembers ms)

def Draft.itemsWithin? (depth : Nat) : List Draft → Option (List Json)
  | [] => some []
  | d :: rest => do
    let j ← d.within? depth
    let js ← Draft.itemsWithin? depth rest
    return j :: js

def Draft.membersWithin? (depth : Nat) : List (List Piece × Draft) → Option (List (String × Json))
  | [] => some []
  | (key, d) :: rest => do
    let key ← Piece.string? key
    let j ← d.within? depth
    let js ← Draft.membersWithin? depth rest
    return (key, j) :: js

end

def Draft.value? (d : Draft) : Option Json := d.within? maxDepth

/-- The fields of a record, written as an object or as an array. Every key of
the object must be a text. -/
def Draft.fields? (fields : List (List String)) : Draft → Option (List (Option Draft))
  | .obj members => do
    let members ← members.mapM fun (key, d) ↦ (Piece.string? key).map (·, d)
    slots? fields members
  | .arr items => slotsOfArray? fields items
  | _ => none

end TypedLoader.Json
