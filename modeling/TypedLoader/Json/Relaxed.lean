import TypedLoader.Binary64.Reader
import TypedLoader.Json.Draft
import TypedLoader.Text.Letter

namespace TypedLoader.Json

inductive Relaxed where
  | null
  | bool (b : Bool)
  | num (s : List Char)
  | str (s : List Piece)
  | arr (items : List Relaxed)
  | obj (members : List (List Piece × Relaxed))
deriving Inhabited

namespace Relaxed

inductive Token where
  | openArray | closeArray | openObject | closeObject | comma | colon
  | str (s : List Piece)
  | name (s : List Piece)
  | num (s : List Char)

/-- What the characters just read belong to, kept in reverse. A quoted string
knows the quote that ends it. -/
inductive Lexeme where
  | none
  | slash
  | lineComment
  | blockComment (star : Bool)
  | number (cs : List Char)
  | name (s : List Piece)
  | nameEscape (s : List Piece)
  | nameUnit (s : List Piece) (digits n : Nat)
  | quoted (mark : Char) (s : List Piece)
  | escape (mark : Char) (s : List Piece)
  | byte (mark : Char) (s : List Piece) (first : Option Nat)
  | unit (mark : Char) (s : List Piece) (digits n : Nat)
  | continued (mark : Char) (s : List Piece)

structure Lexer where
  tokens : List Token := []
  lexeme : Lexeme := .none

namespace Lexer

def isLineEnd (c : Char) : Bool :=
  c == '\n' || c == '\r' || c.toNat == 0x2028 || c.toNat == 0x2029

def isBlank (c : Char) : Bool :=
  c == '\t' || c.toNat == 0x0B || c.toNat == 0x0C || c.toNat == 0xFEFF ||
    Text.isSpaceSeparator c || isLineEnd c

def afterQuoted (tokens : List Token) (mark c : Char) (s : List Piece) : Option Lexer :=
  if c = mark then some ⟨.str s.reverse :: tokens, .none⟩
  else if c = '\\' then some ⟨tokens, .escape mark s⟩
  else if isLineEnd c then Option.none
  else some ⟨tokens, .quoted mark (.char c :: s)⟩

def escaped? (c : Char) : Option Char :=
  match c with
  | '0' => some (Char.ofNat 0)
  | 'b' => some (Char.ofNat 8)
  | 't' => some '\t'
  | 'n' => some '\n'
  | 'v' => some (Char.ofNat 0x0B)
  | 'f' => some (Char.ofNat 0x0C)
  | 'r' => some '\r'
  | c => if Text.isDigit c then Option.none else some c

def afterEscape (tokens : List Token) (mark c : Char) (s : List Piece) : Option Lexer :=
  if c = 'x' then some ⟨tokens, .byte mark s Option.none⟩
  else if c = 'u' then some ⟨tokens, .unit mark s 0 0⟩
  else if c = '\r' then some ⟨tokens, .continued mark s⟩
  else if isLineEnd c then some ⟨tokens, .quoted mark s⟩
  else (escaped? c).map fun e ↦ ⟨tokens, .quoted mark (.char e :: s)⟩

def start? (tokens : List Token) (c : Char) : Option Lexer :=
  match c with
  | '[' => some ⟨.openArray :: tokens, .none⟩
  | ']' => some ⟨.closeArray :: tokens, .none⟩
  | '\x7b' => some ⟨.openObject :: tokens, .none⟩
  | '\x7d' => some ⟨.closeObject :: tokens, .none⟩
  | ',' => some ⟨.comma :: tokens, .none⟩
  | ':' => some ⟨.colon :: tokens, .none⟩
  | '/' => some ⟨tokens, .slash⟩
  | '\\' => some ⟨tokens, .nameEscape []⟩
  | '\x22' => some ⟨tokens, .quoted c []⟩
  | '\x27' => some ⟨tokens, .quoted c []⟩
  | c =>
    if isBlank c then some ⟨tokens, .none⟩
    else if Text.isDigit c || c == '.' || c == '+' || c == '-' then some ⟨tokens, .number [c]⟩
    else if Text.startsName c then some ⟨tokens, .name [.char c]⟩
    else Option.none

/-- A character that belongs to a number. A sign does so only behind the mark of
the exponent. -/
def continuesNumber (before c : Char) : Bool :=
  c.isAlphanum || c == '.' || ((c == '+' || c == '-') && (before == 'e' || before == 'E'))

def step? (l : Lexer) (c : Char) : Option Lexer :=
  let tokens := l.tokens
  match l.lexeme with
  | .none => start? tokens c
  | .slash =>
    if c = '/' then some ⟨tokens, .lineComment⟩
    else if c = '*' then some ⟨tokens, .blockComment false⟩
    else Option.none
  | .lineComment => some ⟨tokens, if isLineEnd c then .none else .lineComment⟩
  | .blockComment star =>
    some ⟨tokens, if star && c == '/' then .none else .blockComment (c == '*')⟩
  | .number cs =>
    if continuesNumber (cs.headD ' ') c then some ⟨tokens, .number (c :: cs)⟩
    else start? (.num cs.reverse :: tokens) c
  | .name s =>
    if c = '\\' then some ⟨tokens, .nameEscape s⟩
    else if Text.continuesName c then some ⟨tokens, .name (.char c :: s)⟩
    else start? (.name s.reverse :: tokens) c
  | .nameEscape s => if c = 'u' then some ⟨tokens, .nameUnit s 0 0⟩ else Option.none
  | .nameUnit s digits n =>
    (Text.hexDigit? c).map fun d ↦
      if digits = 3 then ⟨tokens, .name (.unit (n * 16 + d) :: s)⟩
      else ⟨tokens, .nameUnit s (digits + 1) (n * 16 + d)⟩
  | .quoted mark s => afterQuoted tokens mark c s
  | .escape mark s => afterEscape tokens mark c s
  | .byte mark s first =>
    (Text.hexDigit? c).map fun d ↦
      match first with
      | Option.none => ⟨tokens, .byte mark s (some d)⟩
      | some n => ⟨tokens, .quoted mark (.char (Char.ofNat (n * 16 + d)) :: s)⟩
  | .unit mark s digits n =>
    (Text.hexDigit? c).map fun d ↦
      if digits = 3 then ⟨tokens, .quoted mark (.unit (n * 16 + d) :: s)⟩
      else ⟨tokens, .unit mark s (digits + 1) (n * 16 + d)⟩
  | .continued mark s =>
    if c = '\n' then some ⟨tokens, .quoted mark s⟩ else afterQuoted tokens mark c s

def finish? (l : Lexer) : Option (List Token) :=
  match l.lexeme with
  | .none => some l.tokens
  | .lineComment => some l.tokens
  | .number cs => some (.num cs.reverse :: l.tokens)
  | .name s => some (.name s.reverse :: l.tokens)
  | _ => Option.none

end Lexer

def tokens? (s : List Char) : Option (List Token) :=
  ((s.foldlM Lexer.step? {}).bind Lexer.finish?).map List.reverse

def hexDigits? : List Char → Option (List Char)
  | '0' :: x :: s => if (x = 'x' ∨ x = 'X') ∧ !s.isEmpty then some s else none
  | _ => none

def isNumeral (s : List Char) : Bool :=
  let s := match s with
    | '-' :: s => s
    | '+' :: s => s
    | s => s
  if s == "Infinity".toList || s == "NaN".toList then true
  else
    match hexDigits? s with
    | some digits => digits.all fun c ↦ (Text.hexDigit? c).isSome
    | none =>
      let whole := s.takeWhile Text.isDigit
      (whole.head? != some '0' || whole.length == 1) && (Binary64.magnitude? false s).isSome

/-- The value of a numeral. Hexadecimal ones have no sign and 32 bits, other
integers are signed and have 64 bits, fractions are finite; infinity and its
like are `null`. -/
def number? (s : List Char) : Option Json :=
  match hexDigits? s with
  | some digits => ((Text.hexadecimal? digits).filter (· < UInt32.size)).map Json.nat
  | none =>
    if s == "Infinity".toList || s == "-Infinity".toList || s == "NaN".toList ||
        s == "-NaN".toList then some .null
    else if s.any fun c ↦ c == '.' || c == 'e' || c == 'E' then
      ((Binary64.ofChars? s).filter Binary64.isFinite).map fun x ↦ .num (.float x)
    else (Text.signed64? s).map Json.int

/-- An array or object that is still open, its content in reverse. -/
inductive Frame where
  | array (items : List Relaxed)
  | object (members : List (List Piece × Relaxed))
  | member (members : List (List Piece × Relaxed)) (key : List Piece)

/-- What may come next. Inside an array or object what may come first may also
come after a comma. -/
inductive Expect where
  | value
  | itemOrClose
  | keyOrClose
  | colon
  | after
  | done (r : Relaxed)

structure Builder where
  frames : List Frame := []
  expect : Expect := .value

namespace Builder

def add? (frames : List Frame) (r : Relaxed) : Option Builder :=
  match frames with
  | [] => some ⟨[], .done r⟩
  | .array items :: rest => some ⟨.array (r :: items) :: rest, .after⟩
  | .member members key :: rest => some ⟨.object ((key, r) :: members) :: rest, .after⟩
  | .object _ :: _ => none

def closeArray? : List Frame → Option Builder
  | .array items :: rest => add? rest (.arr items.reverse)
  | _ => none

def closeObject? : List Frame → Option Builder
  | .object members :: rest => add? rest (.obj members.reverse)
  | _ => none

def named? (s : List Piece) : Option Relaxed :=
  let word (w : String) : List Piece := w.toList.map .char
  if s = word "null" then some .null
  else if s = word "true" then some (.bool true)
  else if s = word "false" then some (.bool false)
  else if s = word "Infinity" then some (.num "Infinity".toList)
  else if s = word "NaN" then some (.num "NaN".toList)
  else none

def value? (frames : List Frame) : Token → Option Builder
  | .openArray => some ⟨.array [] :: frames, .itemOrClose⟩
  | .openObject => some ⟨.object [] :: frames, .keyOrClose⟩
  | .str s => add? frames (.str s)
  | .name s => (named? s).bind (add? frames)
  | .num s => if isNumeral s then add? frames (.num s) else none
  | _ => none

def key? (frames : List Frame) (s : List Piece) : Option Builder :=
  match frames with
  | .object members :: rest => some ⟨.member members s :: rest, .colon⟩
  | _ => none

def step? (b : Builder) (t : Token) : Option Builder :=
  match b.expect, t with
  | .value, t => value? b.frames t
  | .itemOrClose, .closeArray => closeArray? b.frames
  | .itemOrClose, t => value? b.frames t
  | .keyOrClose, .closeObject => closeObject? b.frames
  | .keyOrClose, .str s => key? b.frames s
  | .keyOrClose, .name s => key? b.frames s
  | .colon, .colon => some { b with expect := .value }
  | .after, .closeArray => closeArray? b.frames
  | .after, .closeObject => closeObject? b.frames
  | .after, .comma =>
    match b.frames with
    | .array _ :: _ => some { b with expect := .itemOrClose }
    | .object _ :: _ => some { b with expect := .keyOrClose }
    | _ => none
  | _, _ => none

end Builder

def ofText? (s : String) : Option Relaxed := do
  let b ← (← tokens? s.toList).foldlM Builder.step? ({} : Builder)
  match b.expect with
  | .done r => some r
  | _ => none

mutual

def value? : Relaxed → Option Json
  | .null => some .null
  | .bool b => some (.bool b)
  | .num s => number? s
  | .str s => (Piece.string? s).map .str
  | .arr items => (items? items).map .arr
  | .obj members => (members? members).map fun ms ↦ .obj (Object.ofMembers ms)

def items? : List Relaxed → Option (List Json)
  | [] => some []
  | r :: rest => do
    let j ← r.value?
    let js ← items? rest
    return j :: js

def members? : List (List Piece × Relaxed) → Option (List (String × Json))
  | [] => some []
  | (key, r) :: rest => do
    let key ← Piece.string? key
    let j ← r.value?
    let js ← members? rest
    return (key, j) :: js

end

/-- The fields of a record, written as an object or as an array. Every member
must have a value, while items after the last field are not looked at. -/
def fields? (fields : List (List String)) : Relaxed → Option (List (Option Json))
  | .obj members => (members? members).bind (slots? fields)
  | .arr items => (items? (items.take fields.length)).bind (slotsOfArray? fields)
  | _ => none

end Relaxed

end TypedLoader.Json
