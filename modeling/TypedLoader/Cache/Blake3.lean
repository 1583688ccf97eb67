import TypedLoader.Text.Utf8

namespace TypedLoader.Blake3

/-- Words of a block, a chaining value or a state. Positions that do not exist
read as zero. -/
abbrev Words := Array UInt32

def word (w : Words) (i : Nat) : UInt32 := w.getD i 0

def start : Words := #[0x6A09E667, 0xBB67AE85, 0x3C6EF372, 0xA54FF53A, 0x510E527F, 0x9B05688C,
  0x1F83D9AB, 0x5BE0CD19]

def rotate (w : UInt32) (n : UInt32) : UInt32 := (w >>> n) ||| (w <<< (32 - n))

def mix (v : Words) (a b c d : Nat) (x y : UInt32) : Words :=
  let va := word v a + word v b + x
  let vd := rotate (word v d ^^^ va) 16
  let vc := word v c + vd
  let vb := rotate (word v b ^^^ vc) 12
  let va := va + vb + y
  let vd := rotate (vd ^^^ va) 8
  let vc := vc + vd
  let vb := rotate (vb ^^^ vc) 7
  (((v.setIfInBounds a va).setIfInBounds b vb).setIfInBounds c vc).setIfInBounds d vd

def lanes : List (Nat × Nat × Nat × Nat) :=
  [(0, 4, 8, 12), (1, 5, 9, 13), (2, 6, 10, 14), (3, 7, 11, 15),
    (0, 5, 10, 15), (1, 6, 11, 12), (2, 7, 8, 13), (3, 4, 9, 14)]

def round (v m : Words) : Words :=
  (lanes.zipIdx).foldl (fun v ((a, b, c, d), i) ↦
    mix v a b c d (word m (2 * i)) (word m (2 * i + 1))) v

def permutation : List Nat := [2, 6, 3, 10, 7, 0, 4, 13, 1, 11, 12, 5, 9, 14, 15, 8]

def rounds (v m : Words) : Nat → Words
  | 0 => v
  | n + 1 => rounds (round v m) (permutation.map (word m)).toArray n

structure Node where
  chaining : Words
  block : Words
  counter : Nat
  length : Nat
  flags : UInt32

def chunkStart : UInt32 := 1

def chunkEnd : UInt32 := 2

def parentFlag : UInt32 := 4

def rootFlag : UInt32 := 8

def Node.compress (n : Node) (extra : UInt32) : Words :=
  let v := n.chaining ++ #[0x6A09E667, 0xBB67AE85, 0x3C6EF372, 0xA54FF53A,
    UInt32.ofNat n.counter, UInt32.ofNat (n.counter / UInt32.size), UInt32.ofNat n.length,
    n.flags ||| extra]
  let v := rounds v n.block 7
  ((List.range 8).map fun i ↦ word v i ^^^ word v (i + 8)).toArray

def blockWords (bytes : Bytes) : Words :=
  let byte (i : Nat) : Nat := (bytes.getD i 0).toNat
  ((List.range 16).map fun i ↦
    UInt32.ofNat (byte (4 * i) + 256 * (byte (4 * i + 1) + 256 * (byte (4 * i + 2) + 256 * byte (4 * i + 3))))).toArray

/-- Pieces of `size` bytes; the last one may be shorter. There is always one. -/
def pieces (size : Nat) (bytes : Bytes) : Nat → List Bytes
  | 0 => [bytes]
  | fuel + 1 =>
    match bytes.drop size with
    | [] => [bytes]
    | rest => bytes.take size :: pieces size rest fuel

def chunkNode (counter : Nat) (chaining : Words) (flags : UInt32) : List Bytes → Node
  | [] => ⟨chaining, blockWords [], counter, 0, flags ||| chunkEnd⟩
  | [last] => ⟨chaining, blockWords last, counter, last.length, flags ||| chunkEnd⟩
  | block :: next :: rest =>
    let chaining := (⟨chaining, blockWords block, counter, block.length, flags⟩ : Node).compress 0
    chunkNode counter chaining 0 (next :: rest)

def ofChunk (counter : Nat) (bytes : Bytes) : Node :=
  chunkNode counter start chunkStart (pieces 64 bytes 16)

def parent (left right : Node) : Node :=
  ⟨start, left.compress 0 ++ right.compress 0, 0, 64, parentFlag⟩

/-- How many of `n` leaves stand on the left: the greatest power of two that
leaves some for the right. -/
def leftSize (n : Nat) : Nat := Nat.pow 2 (n - 1).log2

def tree (leaves : List Node) (fuel : Nat) : Node :=
  match fuel, leaves with
  | _, [] => ofChunk 0 []
  | _, [leaf] => leaf
  | 0, leaf :: _ => leaf
  | fuel + 1, leaves =>
    let (left, right) := leaves.splitAt (leftSize leaves.length)
    parent (tree left fuel) (tree right fuel)

/-- The BLAKE3 hash: chunks of 1024 bytes are the leaves of a binary tree, every node is compressed,
and the root gives the hash. -/
def hash (bytes : Bytes) : Bytes :=
  let chunks := pieces 1024 bytes bytes.length
  let leaves := chunks.zipIdx.map fun (chunk, i) ↦ ofChunk i chunk
  let root : Words := (tree leaves leaves.length).compress rootFlag
  root.toList.flatMap fun (w : UInt32) ↦
    [w.toUInt8, (w >>> 8).toUInt8, (w >>> 16).toUInt8, (w >>> 24).toUInt8]

end TypedLoader.Blake3
