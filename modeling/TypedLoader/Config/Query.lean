import TypedLoader.Config.Error
import TypedLoader.Json.Relaxed
import TypedLoader.Text.Blank
import TypedLoader.Text.Search
import TypedLoader.Text.Utf8

namespace TypedLoader.Query

/-- The value of the two characters of an escape. A plus sign may stand before a
single digit. -/
def escapeValue? (a b : Char) : Option Nat :=
  if a = '+' then Text.hexDigit? b
  else do return (← Text.hexDigit? a) * 16 + (← Text.hexDigit? b)

/-- The bytes of a component: escapes are decoded, and a plus sign is a blank.
An escape is the percent sign and the two bytes behind it. -/
def bytes? (component : String) : List Char → Except ConfigError Bytes
  | [] => .ok []
  | '%' :: rest =>
    match rest with
    | a :: b :: rest =>
      if a.utf8Size = 1 ∧ b.utf8Size = 1 then
        match escapeValue? a b with
        | some n => (bytes? component rest).map (UInt8.ofNat n :: ·)
        | none => .error (.badEscape (String.ofList [a, b]))
      else if a.utf8Size = 2 then .error (.badEscape (String.singleton a))
      else .error (.truncatedEscape component)
    | [a] =>
      if a.utf8Size = 2 then .error (.badEscape (String.singleton a))
      else .error (.truncatedEscape component)
    | [] => .error (.truncatedEscape component)
  | '+' :: rest => (bytes? component rest).map (0x20 :: ·)
  | c :: rest => (bytes? component rest).map (Text.encode (String.singleton c) ++ ·)

def decode (component : List Char) : Except ConfigError String := do
  let bytes ← bytes? (String.ofList component) component
  match Text.decode? bytes with
  | some s => .ok s
  | none => .error .notText

/-- The value that a text denotes: a word, an integer of 64 bits, a finite
number, or the text itself. -/
def value (s : String) : Json :=
  match s with
  | "true" => .bool true
  | "false" => .bool false
  | "null" => .null
  | s =>
    match Text.signed64? s.toList with
    | some n => .int n
    | none =>
      match (Binary64.ofChars? s.toList).filter Binary64.isFinite with
      | some x => .num (.float x)
      | none => .str s

/-- The key and value of a pair. A key by itself is switched on, or off when a
minus sign stands before it. -/
def pair (s : List Char) : Except ConfigError (String × Json) :=
  match Text.cutAt? '=' s with
  | some (key, text) => do return (← decode key, value (← decode text))
  | none =>
    match s with
    | '-' :: key => do return (← decode key, .bool false)
    | '+' :: key => do return (← decode key, .bool true)
    | key => do return (← decode key, .bool true)

def listKey? (key : String) : Option String :=
  match key.toList.reverse with
  | ']' :: '[' :: rest => some (String.ofList rest.reverse)
  | _ => none

def add (o : Json.Object) (key : String) (value : Json) : Except ConfigError Json.Object :=
  match listKey? key with
  | none => .ok (o.insert key value)
  | some list =>
    match o.get? list with
    | none => .ok (o.insert list (.arr [value]))
    | some (.arr items) => .ok (o.insert list (.arr (items ++ [value])))
    | some _ => .error (.listAndValue list)

def addPairs (o : Json.Object) : List (List Char) → Except ConfigError Json.Object
  | [] => .ok o
  | s :: rest => do
    let (key, value) ← pair s
    let o ← add o key value
    addPairs o rest

/-- The options that a query gives: an object in braces, or pairs such as `a=1&b&-c&list[]=x`. -/
def read (query : String) : Except ConfigError Json.Object :=
  let chars := query.toList
  let body := Text.trim ((Text.stripStart? ['?'] chars).getD chars)
  match body with
  | [] => .ok []
  | '\x7b' :: _ =>
    match (Json.Relaxed.ofText? (String.ofList body)).bind Json.Relaxed.value? with
    | some (.obj members) => .ok members
    | _ => .error .badQuery
  | body =>
    let pieces := Text.splitWhere (fun c ↦ c == '&' || c == ',') body
    addPairs [] (pieces.filter (!·.isEmpty))

end TypedLoader.Query
