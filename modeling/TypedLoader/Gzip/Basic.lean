import TypedLoader.Gzip.Inflate
import TypedLoader.Text.Search

namespace TypedLoader.Gzip

def maxStored : Nat := 65535

def store (bytes : Bytes) : Nat → Bytes
  | 0 => []
  | fuel + 1 =>
    let block := bytes.take maxStored
    let rest := bytes.drop maxStored
    let last : UInt8 := if rest.isEmpty then 1 else 0
    last :: (littleEndian 2 block.length ++ littleEndian 2 (maxStored - block.length) ++ block ++
      if rest.isEmpty then [] else store rest fuel)

def magic : Bytes := [0x1F, 0x8B, 8]

def encode (bytes : Bytes) : Bytes :=
  magic ++ [0, 0, 0, 0, 0, 0, 0xFF] ++ store bytes (bytes.length + 1) ++
    littleEndian 4 (checksum bytes).toNat ++ littleEndian 4 bytes.length

def skipText? : Bytes → Option Bytes
  | [] => none
  | b :: rest => if b = 0 then some rest else skipText? rest

/-- The bytes after the header of a member. `flags` name the optional parts. -/
def skipHeader? (bytes : Bytes) : Option Bytes :=
  match Text.stripStart? magic bytes with
  | some (flags :: _ :: _ :: _ :: _ :: _ :: _ :: rest) => do
    let has (bit : Nat) : Bool := flags.toNat.testBit bit
    if 32 ≤ flags.toNat then failure
    let rest ← if has 2 then
        let size := ofLittleEndian (rest.take 2)
        if rest.length < size + 2 then none else some (rest.drop (size + 2))
      else some rest
    let rest ← if has 3 then skipText? rest else some rest
    let rest ← if has 4 then skipText? rest else some rest
    if has 1 then
      let header := bytes.take (bytes.length - rest.length)
      if rest.length < 2 ∨ ofLittleEndian (rest.take 2) ≠ (checksum header).toNat % UInt16.size then none
      else some (rest.drop 2)
    else some rest
  | _ => none

/-- The content of the first member, if the file is sound. What follows it is
not looked at. -/
def decode? (bytes : Bytes) : Option Bytes := do
  let rest ← skipHeader? bytes
  let bits := bitsOf rest
  let (out, s) ← inflate? #[] bits bits.length
  let (sum, s) ← takeNumber? 32 (alignByte s)
  let (size, _) ← takeNumber? 32 s
  let content := out.toList
  if sum = (checksum content).toNat ∧ size = content.length % UInt32.size then return content
  else failure

end TypedLoader.Gzip
