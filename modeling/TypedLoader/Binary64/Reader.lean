import TypedLoader.Binary64
import TypedLoader.Text.Digits

namespace TypedLoader.Binary64

def exponent? : List Char → Option Int
  | '-' :: s => (Text.decimal? s).map fun n ↦ -(n : Int)
  | '+' :: s => (Text.decimal? s).map fun n ↦ (n : Int)
  | s => (Text.decimal? s).map fun n ↦ (n : Int)

/-- The number nearest to an unsigned numeral; digits may be missing on one
side of the point. -/
def magnitude? (negative : Bool) (s : List Char) : Option Binary64 := do
  let whole := s.takeWhile Text.isDigit
  let s := s.dropWhile Text.isDigit
  let (fraction, s) := match s with
    | '.' :: s => (s.takeWhile Text.isDigit, s.dropWhile Text.isDigit)
    | s => ([], s)
  if whole.isEmpty && fraction.isEmpty then failure
  let exponent ← match s with
    | [] => some 0
    | e :: s => if e = 'e' ∨ e = 'E' then exponent? s else none
  let digits := (whole ++ fraction).filterMap Text.digit?
  return ofDecimal negative (Text.ofDigits 10 digits) (exponent - fraction.length)

def ofChars? : List Char → Option Binary64
  | '-' :: s => magnitude? true s
  | '+' :: s => magnitude? false s
  | s => magnitude? false s

end TypedLoader.Binary64
