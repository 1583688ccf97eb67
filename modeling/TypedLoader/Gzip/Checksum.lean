import TypedLoader.Text.Utf8

namespace TypedLoader.Gzip

def divideBits (r : UInt32) : Nat → UInt32
  | 0 => r
  | n + 1 =>
    let shifted := r >>> 1
    divideBits (if r &&& 1 = 1 then shifted ^^^ 0xEDB88320 else shifted) n

def checksum (bytes : Bytes) : UInt32 :=
  bytes.foldl (fun r b ↦ divideBits (r ^^^ b.toUInt32) 8) 0xFFFFFFFF ^^^ 0xFFFFFFFF

def littleEndian (size n : Nat) : Bytes :=
  (List.range size).map fun i ↦ UInt8.ofNat (n / Nat.pow 256 i % 256)

def ofLittleEndian : Bytes → Nat
  | [] => 0
  | b :: rest => b.toNat + 256 * ofLittleEndian rest

end TypedLoader.Gzip
