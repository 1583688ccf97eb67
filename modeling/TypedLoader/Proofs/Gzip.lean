import Mathlib.Algebra.Group.Nat.Defs
import TypedLoader.Gzip.Basic

namespace TypedLoader.Gzip

theorem takeNumber?_testBits (n k m : Nat) (s : Bits) :
    takeNumber? (n + k) ((List.range n).map m.testBit ++ s) =
      (takeNumber? k s).map fun p ↦ (m % 2 ^ n + 2 ^ n * p.1, p.2) := by
  induction n generalizing m with
  | zero =>
    rw [List.range_zero, List.map_nil, List.nil_append, Nat.zero_add]
    cases takeNumber? k s <;> simp [Nat.mod_one]
  | succ n ih =>
    have hbits : (List.range (n + 1)).map m.testBit =
        m.testBit 0 :: (List.range n).map (m / 2).testBit := by
      rw [List.range_succ_eq_map, List.map_cons, List.map_map]
      refine congrArg _ (List.map_congr_left fun i _ ↦ ?_)
      exact Nat.testBit_succ m i
    have hlow : (m.testBit 0).toNat = m % 2 := by
      rw [Nat.testBit_zero]
      rcases Nat.mod_two_eq_zero_or_one m with h | h <;> simp [h]
    have hmod : m % 2 ^ (n + 1) = m % 2 + 2 * (m / 2 % 2 ^ n) := by
      rw [Nat.pow_succ', Nat.mod_mul]
    rw [hbits, Nat.succ_add, List.cons_append, takeNumber?, ih]
    cases takeNumber? k s with
    | none => rfl
    | some p =>
      refine congrArg some (Prod.ext ?_ rfl)
      change (m.testBit 0).toNat + 2 * (m / 2 % 2 ^ n + 2 ^ n * p.1) =
        m % 2 ^ (n + 1) + 2 ^ (n + 1) * p.1
      rw [hlow, hmod, Nat.pow_succ', Nat.mul_add, Nat.mul_assoc, Nat.add_assoc]

theorem bitsOf_cons (b : UInt8) (bytes : Bytes) :
    bitsOf (b :: bytes) = (List.range 8).map b.toNat.testBit ++ bitsOf bytes := rfl

theorem bitsOf_append (a b : Bytes) : bitsOf (a ++ b) = bitsOf a ++ bitsOf b :=
  List.flatMap_append

@[simp] theorem length_bitsOf (bytes : Bytes) : (bitsOf bytes).length = 8 * bytes.length := by
  induction bytes with
  | nil => rfl
  | cons b bytes ih =>
    rw [bitsOf_cons, List.length_append, List.length_map, List.length_range, ih, List.length_cons]
    omega

theorem takeNumber?_bytes (bytes : Bytes) (s : Bits) :
    takeNumber? (8 * bytes.length) (bitsOf bytes ++ s) = some (ofLittleEndian bytes, s) := by
  induction bytes with
  | nil => rfl
  | cons b bytes ih =>
    have hb : b.toNat % 2 ^ 8 = b.toNat := Nat.mod_eq_of_lt b.toNat_lt
    rw [List.length_cons, Nat.mul_succ, Nat.add_comm, bitsOf_cons, List.append_assoc,
      takeNumber?_testBits, ih, Option.map_some, hb]
    rfl

theorem littleEndian_succ (size n : Nat) :
    littleEndian (size + 1) n = UInt8.ofNat (n % 256) :: littleEndian size (n / 256) := by
  rw [littleEndian, List.range_succ_eq_map, List.map_cons, List.map_map]
  have hfirst : n / Nat.pow 256 0 = n := Nat.div_one n
  rw [hfirst]
  refine congrArg _ (List.map_congr_left fun i _ ↦ ?_)
  simp only [Function.comp_apply, Nat.pow_eq, Nat.pow_succ', Nat.div_div_eq_div_mul]

@[simp] theorem length_littleEndian (size n : Nat) : (littleEndian size n).length = size := by
  simp [littleEndian]

theorem ofLittleEndian_littleEndian (size n : Nat) :
    ofLittleEndian (littleEndian size n) = n % 256 ^ size := by
  induction size generalizing n with
  | zero => exact (Nat.mod_one n).symm
  | succ size ih =>
    have hb : (UInt8.ofNat (n % 256)).toNat = n % 256 := by simp
    rw [littleEndian_succ, ofLittleEndian, ih, hb, Nat.pow_succ', Nat.mod_mul]

theorem takeNumber?_littleEndian (size n : Nat) (s : Bits) :
    takeNumber? (8 * size) (bitsOf (littleEndian size n) ++ s) = some (n % 256 ^ size, s) := by
  have h := takeNumber?_bytes (littleEndian size n) s
  rwa [length_littleEndian, ofLittleEndian_littleEndian] at h

theorem alignByte_bitsOf (pad : Bits) (h : pad.length < 8) (bytes : Bytes) :
    alignByte (pad ++ bitsOf bytes) = bitsOf bytes := by
  have hlen : (pad ++ bitsOf bytes).length % 8 = pad.length := by
    rw [List.length_append, length_bitsOf]
    omega
  rw [alignByte, hlen, List.drop_left]

theorem go_bitsOf (bytes : Bytes) (out : Array UInt8) (s : Bits) :
    storedBlock?.go bytes.length out (bitsOf bytes ++ s) = some (out ++ bytes.toArray, s) := by
  induction bytes generalizing out with
  | nil => simp [storedBlock?.go, bitsOf]
  | cons b bytes ih =>
    have hb := takeNumber?_bytes [b] (bitsOf bytes ++ s)
    have hout : out.push b ++ bytes.toArray = out ++ (b :: bytes).toArray := by simp
    rw [← hout, ← ih, ← List.singleton_append, bitsOf_append, List.append_assoc,
      List.singleton_append, List.length_cons, storedBlock?.go]
    simp only [List.length_singleton, Nat.mul_one] at hb
    rw [hb]
    simp [ofLittleEndian]

theorem storedBlock?_bitsOf {pad : Bits} (hpad : pad.length < 8) {block : Bytes}
    (hblock : block.length ≤ maxStored) (out : Array UInt8) (rest : Bytes) :
    storedBlock? out (pad ++ bitsOf (littleEndian 2 block.length ++
      littleEndian 2 (maxStored - block.length) ++ block ++ rest)) =
        some (out ++ block.toArray, bitsOf rest) := by
  have hmax : maxStored = 65535 := rfl
  have hlength : block.length % 256 ^ 2 = block.length := Nat.mod_eq_of_lt (by omega)
  have hcomplement : (maxStored - block.length) % 256 ^ 2 = maxStored - block.length :=
    Nat.mod_eq_of_lt (by omega)
  have hsize : ¬(block.length + (maxStored - block.length) ≠ UInt16.size - 1) := by
    have hword : UInt16.size - 1 = 65535 := rfl
    omega
  have hfirst := takeNumber?_littleEndian 2 block.length
    (bitsOf (littleEndian 2 (maxStored - block.length)) ++ (bitsOf block ++ bitsOf rest))
  have hsecond := takeNumber?_littleEndian 2 (maxStored - block.length)
    (bitsOf block ++ bitsOf rest)
  rw [hlength] at hfirst
  rw [hcomplement] at hsecond
  rw [storedBlock?, alignByte_bitsOf _ hpad]
  simp only [bitsOf_append, List.append_assoc]
  rw [hfirst]
  simp only [bind, Option.bind]
  rw [hsecond]
  simp only [if_neg hsize]
  exact go_bitsOf block out (bitsOf rest)

theorem bitsOf_mark (last : Bool) (bytes : Bytes) :
    bitsOf ((if last then 1 else 0) :: bytes) =
      last :: false :: false :: (List.replicate 5 false ++ bitsOf bytes) := by
  cases last <;> rfl

theorem length_lt_store {bytes : Bytes} {fuel : Nat} (h : bytes.length < fuel) :
    bytes.length < (store bytes fuel).length := by
  induction fuel generalizing bytes with
  | zero => omega
  | succ fuel ih =>
    have hmax : maxStored = 65535 := rfl
    have hparts : (bytes.take maxStored).length + (bytes.drop maxStored).length = bytes.length := by
      rw [← List.length_append, List.take_append_drop]
    rw [store, List.length_cons]
    simp only [List.length_append, length_littleEndian]
    cases hlast : (bytes.drop maxStored).isEmpty with
    | true =>
      rw [List.isEmpty_iff.1 hlast, List.length_nil] at hparts
      omega
    | false =>
      have hlen := List.length_pos_iff.2 (List.isEmpty_eq_false_iff.1 hlast)
      rw [List.length_drop] at hlen
      have hshort : (bytes.drop maxStored).length < fuel := by
        rw [List.length_drop]
        omega
      have hnext := ih hshort
      simp only [Bool.false_eq_true, if_false]
      omega

theorem inflate?_store {bytes : Bytes} {fuel rounds : Nat} (hfuel : bytes.length < fuel)
    (hrounds : fuel ≤ rounds) (out : Array UInt8) (rest : Bytes) :
    inflate? out (bitsOf (store bytes fuel ++ rest)) rounds =
      some (out ++ bytes.toArray, bitsOf rest) := by
  induction fuel generalizing bytes rounds out with
  | zero => omega
  | succ fuel ih =>
    obtain ⟨rounds, rfl⟩ : ∃ n, rounds = n + 1 := ⟨rounds - 1, by omega⟩
    have hblock : (bytes.take maxStored).length ≤ maxStored := List.length_take_le ..
    have hparts : bytes.take maxStored ++ bytes.drop maxStored = bytes := List.take_append_drop ..
    rw [store, List.cons_append, bitsOf_mark, inflate?]
    simp only [takeNumber?, Option.bind_eq_bind, Option.bind_some, Option.pure_def]
    rw [List.append_assoc, storedBlock?_bitsOf (by simp) hblock]
    simp only [Option.bind_some]
    cases hlast : (bytes.drop maxStored).isEmpty with
    | true =>
      have hrest : bytes.drop maxStored = [] := List.isEmpty_iff.1 hlast
      rw [hrest, List.append_nil] at hparts
      simp [hparts]
    | false =>
      have hlen : 0 < (bytes.drop maxStored).length :=
        List.length_pos_iff.2 (List.isEmpty_eq_false_iff.1 hlast)
      have hmax : maxStored = 65535 := rfl
      rw [List.length_drop] at hlen
      have hshort : (bytes.drop maxStored).length < fuel := by
        rw [List.length_drop]
        omega
      have hnext := ih hshort (show fuel ≤ rounds by omega) (out ++ (bytes.take maxStored).toArray)
      have hout : out ++ (bytes.take maxStored).toArray ++ (bytes.drop maxStored).toArray =
          out ++ bytes.toArray := by
        rw [Array.append_assoc, List.append_toArray (bytes.take maxStored), hparts]
      simp only [Bool.false_eq_true, if_false, Bool.toNat_false]
      rw [hnext, hout]
      rfl

theorem skipHeader?_encode (rest : Bytes) :
    skipHeader? (magic ++ [0, 0, 0, 0, 0, 0, 0xFF] ++ rest) = some rest := by
  simp [skipHeader?, magic, Text.stripStart?]

/-- Every sequence of bytes is read back from the file that is made of it. -/
theorem decode?_encode (bytes : Bytes) : decode? (encode bytes) = some bytes := by
  have hsum : (checksum bytes).toNat % 256 ^ 4 = (checksum bytes).toNat :=
    Nat.mod_eq_of_lt (checksum bytes).toNat_lt
  generalize hend : littleEndian 4 (checksum bytes).toNat ++ littleEndian 4 bytes.length = footer
  have hencode : encode bytes = magic ++ [0, 0, 0, 0, 0, 0, 0xFF] ++
      (store bytes (bytes.length + 1) ++ footer) := by
    rw [← hend, encode]
    simp only [List.append_assoc]
  have hrounds : bytes.length + 1 ≤ (bitsOf (store bytes (bytes.length + 1) ++ footer)).length := by
    have hstore := length_lt_store (Nat.lt_add_one bytes.length)
    rw [length_bitsOf, List.length_append]
    omega
  have hfirst := takeNumber?_littleEndian 4 (checksum bytes).toNat
    (bitsOf (littleEndian 4 bytes.length))
  have hsecond := takeNumber?_littleEndian 4 bytes.length []
  rw [hsum] at hfirst
  rw [List.append_nil] at hsecond
  have halign : alignByte (bitsOf footer) = bitsOf (littleEndian 4 (checksum bytes).toNat) ++
      bitsOf (littleEndian 4 bytes.length) := by
    rw [← bitsOf_append, hend]
    exact alignByte_bitsOf [] (by decide) footer
  rw [decode?, hencode, skipHeader?_encode]
  simp only [Option.bind_eq_bind, Option.bind_some]
  rw [inflate?_store (Nat.lt_succ_self _) hrounds]
  simp only [Option.bind_some, halign]
  rw [hfirst]
  simp only [Option.bind_some]
  rw [hsecond]
  simp only [Option.bind_some, Array.empty_append, List.toList_toArray]
  exact if_pos ⟨by trivial, by trivial⟩

end TypedLoader.Gzip
