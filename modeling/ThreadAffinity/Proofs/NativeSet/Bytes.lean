import ThreadAffinity.NativeSet
import ThreadAffinity.Proofs.LittleEndian

/-!
# A native set as bytes

The system knows nothing of words. It is given a block of memory and reads it byte by byte, as an
array of bits with the lowest bit of each byte first, up to a size that may end anywhere. Words
are laid out least significant byte first, and so the bit of a processor is at the same place
whichever way the block is cut up (`bitAt_bytes`). The first `size` bytes select what the set
contains below `8 * size` (`bitAt_take_bytes`).
-/

namespace ThreadAffinity

namespace NativeSet

variable {set : NativeSet} {i : Nat}

/-- The bytes of a block, least significant byte of each word first. -/
def bytes (set : NativeSet) : List UInt8 :=
  set.words.toList.flatMap fun word => LittleEndian.bytesOf 8 word.toNat

/-- Bit `i` of an array of bits: bit `i % 8` of byte `i / 8`. Behind the end nothing is set. -/
def bitAt (bytes : List UInt8) (i : Nat) : Bool :=
  match bytes[i / 8]? with
  | some byte => byte.toNat.testBit (i % 8)
  | none => false

/-- Byte `k` of word `w` comes after the eight bytes of each word before. -/
theorem getElem?_flatMap_bytesOf (words : List Word) (w : Nat) {k : Nat} (hk : k < 8) :
    (words.flatMap fun word => LittleEndian.bytesOf 8 word.toNat)[8 * w + k]? =
      words[w]?.map fun word => UInt8.ofNat (word.toNat / 256 ^ k) := by
  rw [getElem?_flatMap_of_length (fun _ => LittleEndian.length_bytesOf _ _) words w hk]
  simp only [LittleEndian.getElem?_bytesOf hk, Option.map_eq_bind, Function.comp_def]

theorem length_bytes (set : NativeSet) : set.bytes.length = set.byteSize := by
  rw [bytes, byteSize, List.length_flatMap]
  simp only [LittleEndian.length_bytesOf, List.map_const', List.sum_replicate_nat,
    Array.length_toList, Nat.mul_comm]

theorem bitAt_bytes (set : NativeSet) (i : Nat) : bitAt set.bytes i = set.contains i := by
  have hbyte : i / 8 = 8 * (i / 64) + i / 8 % 8 := by omega
  have hbit : 8 * (i / 8 % 8) + i % 8 = i % 64 := by omega
  rw [bitAt, hbyte, bytes, getElem?_flatMap_bytesOf _ _ (Nat.mod_lt _ (by decide)),
    Array.getElem?_toList, contains, Words.test]
  cases set.words[i / 64]? with
  | none => rfl
  | some word =>
      have hlt : i % 8 < 8 := Nat.mod_lt _ (by decide)
      exact (LittleEndian.testBit_byte hlt _ _).trans (congrArg word.toNat.testBit hbit)

theorem bitAt_take (bytes : List UInt8) (size i : Nat) :
    bitAt (bytes.take size) i = (decide (i < 8 * size) && bitAt bytes i) := by
  rw [bitAt, List.getElem?_take]
  by_cases hi : i < 8 * size
  · rw [if_pos (by omega), decide_eq_true hi, Bool.true_and, bitAt]
  · rw [if_neg (by omega), decide_eq_false hi, Bool.false_and]

/-- What is selected in the first bytes of a block is what the system reads there. -/
theorem mem_membersWithin_iff (set : NativeSet) (size p : Nat) :
    p ∈ set.membersWithin size ↔ bitAt (set.bytes.take size) p = true := by
  rw [membersWithin, List.mem_filter, List.mem_range, bitAt_take, bitAt_bytes,
    Bool.and_eq_true, decide_eq_true_eq]

end NativeSet

end ThreadAffinity
