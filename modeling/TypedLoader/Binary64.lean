namespace TypedLoader

/-- A binary floating-point number of 64 bits, by its bit pattern. A finite one is `m * 2 ^ q`; what
is rounded goes to the nearest such number, and to the even `m` on a tie. -/
structure Binary64 where
  bits : UInt64
deriving DecidableEq, Inhabited

namespace Binary64

def signBit : Nat := 9223372036854775808

/-- The weight of the exponent, which is also the bit that normal numbers leave
out of their fraction. -/
def hiddenBit : Nat := 4503599627370496

def isNegative (x : Binary64) : Bool := x.bits.toNat / signBit == 1

def exponentField (x : Binary64) : Nat := x.bits.toNat / hiddenBit % 2048

def fraction (x : Binary64) : Nat := x.bits.toNat % hiddenBit

def isFinite (x : Binary64) : Bool := x.exponentField != 2047

/-- The `m` of a finite number `m * 2 ^ (e - 1074)`. -/
def significand (x : Binary64) : Nat :=
  if x.exponentField = 0 then x.fraction else x.fraction + hiddenBit

/-- The `e` of a finite number `m * 2 ^ (e - 1074)`. -/
def shift (x : Binary64) : Nat := x.exponentField - 1

/-- The quotient of two numbers, to the nearest integer and to the even one on
a tie. -/
def roundDiv (num den : Nat) : Nat :=
  let q := num / den
  let r := num % den
  if 2 * r < den then q
  else if den < 2 * r then q + 1
  else if q % 2 = 0 then q else q + 1

/-- The bit pattern of `m * 2 ^ (e - 1074)`, or of an infinity when that is too
large. -/
def pack (negative : Bool) (m e : Nat) : Binary64 :=
  let sign := if negative then signBit else 0
  let (m, e) := if m = 2 * hiddenBit then (hiddenBit, e + 1) else (m, e)
  let magnitude :=
    if m < hiddenBit then m
    else if 2045 < e then 2047 * hiddenBit
    else (e + 1) * hiddenBit + (m - hiddenBit)
  ⟨UInt64.ofNat (sign + magnitude)⟩

def ofRatio (negative : Bool) (num den : Nat) : Binary64 :=
  if num = 0 ∨ den = 0 then pack negative 0 0
  else
    -- `scaled / den` is the magnitude in units of the least positive number
    let scaled := num * Nat.pow 2 1074
    let e := (scaled / den).log2 - 52
    pack negative (roundDiv scaled (den * Nat.pow 2 e)) e

def zero : Binary64 := ⟨0⟩

def scaled (x : Binary64) : Nat := x.significand * Nat.pow 2 x.shift

def neg (x : Binary64) : Binary64 := ⟨UInt64.ofNat ((x.bits.toNat + signBit) % (2 * signBit))⟩

def ofDecimal (negative : Bool) (n : Nat) (k : Int) : Binary64 :=
  if n = 0 then pack negative 0 0
  else
    let digits := (Nat.toDigits 10 n).length
    -- beyond these bounds the result is infinite or zero whatever the digits
    if 400 < k + digits then pack negative hiddenBit 2046
    else if k + digits < -400 then pack negative 0 0
    else if 0 ≤ k then ofRatio negative (n * Nat.pow 10 k.toNat) 1
    else ofRatio negative n (Nat.pow 10 (-k).toNat)

def mul (x y : Binary64) : Binary64 := ofRatio false (x.scaled * y.scaled) (Nat.pow 2 2148)

def div (x y : Binary64) : Binary64 := ofRatio false x.scaled y.scaled

structure Decimal where
  digits : Nat
  exponent : Int
deriving DecidableEq, Repr

/-- The interval of magnitudes that round to a number, in quarters of the unit
`2 ^ -1074`, with the number itself between its ends. -/
structure Around where
  low : Nat
  value : Nat
  high : Nat
  closed : Bool

def around (x : Binary64) : Around :=
  let unit := Nat.pow 2 x.shift
  let value := 4 * x.scaled
  -- below a power of two the numbers lie twice as close
  let below := if x.fraction = 0 ∧ 1 < x.exponentField then unit else 2 * unit
  ⟨value - below, value, value + 2 * unit, x.significand % 2 == 0⟩

def Around.holds (a : Around) (n den : Nat) : Bool :=
  if a.closed then a.low * den ≤ n && n ≤ a.high * den
  else a.low * den < n && n < a.high * den

/-- The point of the grid of multiples of `10 ^ k` that lies in the interval,
the one nearer to the number if two do, and the even one on a tie. -/
def Around.onGrid? (a : Around) (k : Int) : Option Nat :=
  -- a point `d` of the grid is `d * step / den` in the units of the interval
  let step := if 0 ≤ k then Nat.pow 10 k.toNat * Nat.pow 2 1076 else Nat.pow 2 1076
  let den := if 0 ≤ k then 1 else Nat.pow 10 (-k).toNat
  let lower := a.value * den / step
  let upper := lower + 1
  let lowerIn := 0 < lower && a.holds (lower * step) den
  let upperIn := a.holds (upper * step) den
  if lowerIn && upperIn then
    let down := a.value * den - lower * step
    let up := upper * step - a.value * den
    some (if down < up then lower else if up < down then upper
      else if lower % 2 = 0 then lower else upper)
  else if lowerIn then some lower
  else if upperIn then some upper
  else none

/-- The fewest digits that round to the number: the coarsest decimal grid with
a point in its interval, searched downward from `10 ^ k`. -/
def Around.search (a : Around) (k : Int) : Nat → Decimal
  | 0 => ⟨0, 0⟩
  | fuel + 1 =>
    match a.onGrid? k with
    | some d => ⟨d, k⟩
    | none => a.search (k - 1) fuel

/-- The shortest decimal that rounds to a finite number. The search begins
above the largest power of ten that can matter and ends below the least. -/
def shortest (x : Binary64) : Decimal :=
  if x.significand = 0 then ⟨0, 0⟩
  else
    let digits := ((x.scaled.log2 : Int) - 1074) * 30103 / 100000
    x.around.search (digits + 2) 25

/-- Where positional notation ends: numbers from `10 ^ -5` up to `10 ^ 16` are
written positionally, always with a point; others with an exponent. -/
def text (x : Binary64) : String :=
  let sign := if x.isNegative then "-" else ""
  let d := x.shortest
  if d.digits = 0 then sign ++ "0.0"
  else
    let ds := Nat.toDigits 10 d.digits
    let len : Int := ds.length
    let point := len + d.exponent
    let body : List Char :=
      if 0 ≤ d.exponent ∧ point ≤ 16 then
        ds ++ List.replicate d.exponent.toNat '0' ++ ['.', '0']
      else if 0 < point ∧ point ≤ 16 then
        ds.take point.toNat ++ '.' :: ds.drop point.toNat
      else if -5 < point ∧ point ≤ 0 then
        '0' :: '.' :: (List.replicate (-point).toNat '0' ++ ds)
      else
        let mantissa :=
          match ds with
          | [] => []
          | [c] => [c]
          | c :: rest => c :: '.' :: rest
        mantissa ++ 'e' :: (toString (point - 1)).toList
    sign ++ String.ofList body

end Binary64

end TypedLoader
