import TypedLoader.Json.Draft

namespace TypedLoader.Json

inductive Token where
  | openArray | closeArray | openObject | closeObject | comma | colon
  | str (s : List Piece)
  | num (n : Numeral)
  | null
  | bool (b : Bool)
deriving DecidableEq, Repr

/-- What the characters just read belong to. Characters and pieces are kept in
reverse. -/
inductive Lexeme where
  | none
  | word (cs : List Char)
  | number (cs : List Char)
  | quoted (s : List Piece)
  | escape (s : List Piece)
  | unit (s : List Piece) (digits n : Nat)

/-- The tokens read so far, in reverse, and the lexeme under way. -/
structure Lexer where
  tokens : List Token := []
  lexeme : Lexeme := .none

namespace Lexer

def flush? (l : Lexer) : Option (List Token) :=
  match l.lexeme with
  | .none => some l.tokens
  | .word ['l', 'l', 'u', 'n'] => some (.null :: l.tokens)
  | .word ['e', 'u', 'r', 't'] => some (.bool true :: l.tokens)
  | .word ['e', 's', 'l', 'a', 'f'] => some (.bool false :: l.tokens)
  | .number cs => (Numeral.ofChars? cs.reverse).map (.num · :: l.tokens)
  | _ => Option.none

def start? (tokens : List Token) (c : Char) : Option Lexer :=
  match c with
  | '[' => some ⟨.openArray :: tokens, .none⟩
  | ']' => some ⟨.closeArray :: tokens, .none⟩
  | '{' => some ⟨.openObject :: tokens, .none⟩
  | '}' => some ⟨.closeObject :: tokens, .none⟩
  | ',' => some ⟨.comma :: tokens, .none⟩
  | ':' => some ⟨.colon :: tokens, .none⟩
  | '"' => some ⟨tokens, .quoted []⟩
  | c =>
    if c = ' ' ∨ c = '\n' ∨ c = '\r' ∨ c = '\t' then some ⟨tokens, .none⟩
    else if c = '-' ∨ Text.isDigit c then some ⟨tokens, .number [c]⟩
    else if 'a' ≤ c ∧ c ≤ 'z' then some ⟨tokens, .word [c]⟩
    else Option.none

def isNumberChar (c : Char) : Bool :=
  Text.isDigit c || c == '+' || c == '-' || c == '.' || c == 'e' || c == 'E'

def shortEscape? : Char → Option Char
  | '"' => some '"'
  | '\\' => some '\\'
  | '/' => some '/'
  | 'b' => some (Char.ofNat 8)
  | 'f' => some (Char.ofNat 12)
  | 'n' => some '\n'
  | 'r' => some '\r'
  | 't' => some '\t'
  | _ => Option.none

def step? (l : Lexer) (c : Char) : Option Lexer :=
  match l.lexeme with
  | .none => start? l.tokens c
  | .word cs =>
    if 'a' ≤ c ∧ c ≤ 'z' then some { l with lexeme := .word (c :: cs) }
    else l.flush?.bind (start? · c)
  | .number cs =>
    if isNumberChar c then some { l with lexeme := .number (c :: cs) }
    else l.flush?.bind (start? · c)
  | .quoted s =>
    if c = '"' then some ⟨.str s.reverse :: l.tokens, .none⟩
    else if c = '\\' then some { l with lexeme := .escape s }
    else if c.toNat < 0x20 then Option.none
    else some { l with lexeme := .quoted (.char c :: s) }
  | .escape s =>
    if c = 'u' then some { l with lexeme := .unit s 0 0 }
    else (shortEscape? c).map fun e ↦ { l with lexeme := .quoted (.char e :: s) }
  | .unit s digits n =>
    (Text.hexDigit? c).map fun d ↦
      if digits = 3 then { l with lexeme := .quoted (.unit (n * 16 + d) :: s) }
      else { l with lexeme := .unit s (digits + 1) (n * 16 + d) }

end Lexer

def tokens? (s : List Char) : Option (List Token) :=
  ((s.foldlM Lexer.step? {}).bind Lexer.flush?).map List.reverse

/-- An array or object that is still open, its content in reverse. In an
object the key of the member under way may have been read. -/
inductive Frame where
  | array (items : List Draft)
  | object (members : List (List Piece × Draft))
  | member (members : List (List Piece × Draft)) (key : List Piece)

inductive Expect where
  | value
  | firstItem
  | firstKey
  | key
  | colon
  | after
  | done (d : Draft)

structure Builder where
  frames : List Frame := []
  expect : Expect := .value

namespace Builder

def add? (frames : List Frame) (d : Draft) : Option Builder :=
  match frames with
  | [] => some ⟨[], .done d⟩
  | .array items :: rest => some ⟨.array (d :: items) :: rest, .after⟩
  | .member members key :: rest => some ⟨.object ((key, d) :: members) :: rest, .after⟩
  | .object _ :: _ => none

def closeArray? : List Frame → Option Builder
  | .array items :: rest => add? rest (.arr items.reverse)
  | _ => none

def closeObject? : List Frame → Option Builder
  | .object members :: rest => add? rest (.obj members.reverse)
  | _ => none

def value? (frames : List Frame) : Token → Option Builder
  | .openArray => some ⟨.array [] :: frames, .firstItem⟩
  | .openObject => some ⟨.object [] :: frames, .firstKey⟩
  | .str s => add? frames (.str s)
  | .num n => add? frames (.num n)
  | .null => add? frames .null
  | .bool b => add? frames (.bool b)
  | _ => none

def key? (frames : List Frame) : Token → Option Builder
  | .str s =>
    match frames with
    | .object members :: rest => some ⟨.member members s :: rest, .colon⟩
    | _ => none
  | _ => none

def step? (b : Builder) (t : Token) : Option Builder :=
  match b.expect, t with
  | .value, t => value? b.frames t
  | .firstItem, .closeArray => closeArray? b.frames
  | .firstItem, t => value? b.frames t
  | .firstKey, .closeObject => closeObject? b.frames
  | .firstKey, t => key? b.frames t
  | .key, t => key? b.frames t
  | .colon, .colon => some { b with expect := .value }
  | .after, .closeArray => closeArray? b.frames
  | .after, .closeObject => closeObject? b.frames
  | .after, .comma =>
    match b.frames with
    | .array _ :: _ => some { b with expect := .value }
    | .object _ :: _ => some { b with expect := .key }
    | _ => none
  | _, _ => none

def result? (b : Builder) : Option Draft :=
  match b.expect with
  | .done d => some d
  | _ => none

end Builder

def Draft.ofTokens? (ts : List Token) : Option Draft :=
  (ts.foldlM Builder.step? {}).bind Builder.result?

def Draft.ofText? (s : String) : Option Draft := (tokens? s.toList).bind Draft.ofTokens?

def ofText? (s : String) : Option Json := (Draft.ofText? s).bind Draft.value?

end TypedLoader.Json
