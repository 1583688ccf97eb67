import TypedLoader.Json.Basic
import TypedLoader.Text.Digits

namespace TypedLoader.Json

/-- A character inside a quoted string: the quote, the backslash and the
control characters are escaped, those with a short escape by it. -/
def escape (c : Char) : List Char :=
  match c with
  | '"' => ['\\', '"']
  | '\\' => ['\\', '\\']
  | '\n' => ['\\', 'n']
  | '\r' => ['\\', 'r']
  | '\t' => ['\\', 't']
  | c =>
    if c.toNat = 8 then ['\\', 'b']
    else if c.toNat = 12 then ['\\', 'f']
    else if c.toNat < 0x20 then
      ['\\', 'u', '0', '0', Text.hexChar (c.toNat / 16), Text.hexChar (c.toNat % 16)]
    else [c]

def quote (s : String) : List Char := '"' :: (s.toList.flatMap escape ++ ['"'])

def Number.chars : Number → List Char
  | .int n => (toString n).toList
  | .float x => x.text.toList

mutual

def chars : Json → List Char
  | .null => ['n', 'u', 'l', 'l']
  | .bool true => ['t', 'r', 'u', 'e']
  | .bool false => ['f', 'a', 'l', 's', 'e']
  | .num n => n.chars
  | .str s => quote s
  | .arr items => '[' :: (itemChars items ++ [']'])
  | .obj members => '{' :: (memberChars members ++ ['}'])

def itemChars : List Json → List Char
  | [] => []
  | [j] => j.chars
  | j :: k :: rest => j.chars ++ ',' :: itemChars (k :: rest)

def memberChars : List (String × Json) → List Char
  | [] => []
  | [(key, j)] => quote key ++ ':' :: j.chars
  | (key, j) :: m :: rest => quote key ++ ':' :: (j.chars ++ ',' :: memberChars (m :: rest))

end

def text (j : Json) : String := String.ofList j.chars

end TypedLoader.Json
