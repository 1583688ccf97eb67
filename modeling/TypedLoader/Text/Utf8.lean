namespace TypedLoader

abbrev Bytes := List UInt8

namespace Text

def encode (s : String) : Bytes := s.toUTF8.data.toList

def decode? (bytes : Bytes) : Option String := String.fromUTF8? ⟨bytes.toArray⟩

def units16 (c : Char) : Nat := if c.toNat < 0x10000 then 1 else 2

def length16 : List Char → Nat
  | [] => 0
  | c :: s => units16 c + length16 s

end Text

end TypedLoader
