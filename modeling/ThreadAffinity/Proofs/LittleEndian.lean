import Mathlib.Algebra.Group.Nat.Defs
import Mathlib.Data.Nat.Digits.Defs
import ThreadAffinity.Topology.LittleEndian

/-!
# Numbers as bytes

A number below `256 ^ count` is read back from the `count` bytes it is written as
(`valueOf_bytesOf`), and no bytes stand for a larger one (`valueOf_lt`).

What stands at a given place when numbers are written as bytes: byte `k` of a number is the one of
weight `256 ^ k` (`getElem?_bytesOf`), and pieces of one length stand one behind the other
(`getElem?_flatMap_of_length`). `StandsAt` says so of a number somewhere in the middle of other
bytes, and that the number is there in full.
-/

namespace ThreadAffinity

/-- Place `k` of piece `i` comes behind all places of each piece before. -/
theorem getElem?_flatMap_of_length {α β : Type} {f : α → List β} {width k : Nat}
    (hlength : ∀ a, (f a).length = width) (l : List α) (i : Nat) (hk : k < width) :
    (l.flatMap f)[width * i + k]? = l[i]?.bind fun a => (f a)[k]? := by
  induction l generalizing i with
  | nil => rfl
  | cons a l ih =>
      rw [List.flatMap_cons, List.getElem?_append, hlength]
      cases i with
      | zero =>
          rw [Nat.mul_zero, Nat.zero_add, if_pos hk]
          rfl
      | succ i =>
          have hbehind : width ≤ width * (i + 1) + k := by
            rw [Nat.mul_succ]
            omega
          have hrest : width * (i + 1) + k - width = width * i + k := by
            rw [Nat.mul_succ]
            omega
          rw [if_neg (Nat.not_lt.mpr hbehind), hrest, ih i, List.getElem?_cons_succ]

namespace LittleEndian

/-! ## Reading back -/

theorem valueOf_bytesOf {count n : Nat} (h : n < 256 ^ count) : valueOf (bytesOf count n) = n := by
  induction count generalizing n with
  | zero => exact (Nat.lt_one_iff.mp h).symm
  | succ count ih =>
      have hrest : n / 256 < 256 ^ count := Nat.div_lt_of_lt_mul (by rwa [← Nat.pow_succ'])
      rw [bytesOf, valueOf, ih hrest, UInt8.toNat_ofNat']
      exact Nat.mod_add_div n 256

theorem valueOf_eq_ofDigits (bytes : List UInt8) :
    valueOf bytes = Nat.ofDigits 256 (bytes.map UInt8.toNat) := by
  induction bytes with
  | nil => rfl
  | cons byte rest ih => rw [valueOf, List.map_cons, Nat.ofDigits_cons, ih]

theorem valueOf_lt (bytes : List UInt8) : valueOf bytes < 256 ^ bytes.length := by
  rw [valueOf_eq_ofDigits, ← List.length_map]
  refine Nat.ofDigits_lt_base_pow_length (by decide) fun digit hdigit => ?_
  obtain ⟨byte, -, rfl⟩ := List.mem_map.mp hdigit
  exact byte.toNat_lt

/-! ## By position -/

theorem getElem?_bytesOf {count k : Nat} (hk : k < count) (n : Nat) :
    (bytesOf count n)[k]? = some (UInt8.ofNat (n / 256 ^ k)) := by
  induction count generalizing n k with
  | zero => exact absurd hk (Nat.not_lt_zero k)
  | succ count ih =>
      cases k with
      | zero => rw [Nat.pow_zero, Nat.div_one, bytesOf, List.getElem?_cons_zero]
      | succ k =>
          rw [bytesOf, List.getElem?_cons_succ, ih (Nat.lt_of_succ_lt_succ hk),
            Nat.div_div_eq_div_mul, ← Nat.pow_succ']

/-- A bit of a byte is a bit of the number. -/
theorem testBit_byte {j : Nat} (hj : j < 8) (n k : Nat) :
    (UInt8.ofNat (n / 256 ^ k)).toNat.testBit j = n.testBit (8 * k + j) := by
  have hpow : 256 ^ k = 2 ^ (8 * k) := by rw [Nat.pow_mul]
  rw [UInt8.toNat_ofNat', Nat.testBit_mod_two_pow, decide_eq_true hj, Bool.true_and, hpow,
    Nat.testBit_div_two_pow, Nat.add_comm]

/-- The number stands at `offset`, least significant byte first, and `width` bytes are enough
for it. -/
def StandsAt (bytes : List UInt8) (offset width n : Nat) : Prop :=
  n < 256 ^ width ∧ ∀ k < width, bytes[offset + k]? = some (UInt8.ofNat (n / 256 ^ k))

theorem standsAt_append (front : List UInt8) {back : List UInt8} {offset width n : Nat}
    (hoffset : front.length = offset) (hn : n < 256 ^ width) :
    StandsAt (front ++ (bytesOf width n ++ back)) offset width n := by
  subst hoffset
  refine ⟨hn, fun k hk => ?_⟩
  rw [List.getElem?_append_right (Nat.le_add_right _ _), Nat.add_sub_cancel_left,
    List.getElem?_append_left (by rwa [length_bytesOf]), getElem?_bytesOf hk]

/-- Where the same number stands, there are the same bytes. -/
theorem StandsAt.getElem?_eq {a b : List UInt8} {offset width n k : Nat}
    (ha : StandsAt a offset width n) (hb : StandsAt b offset width n) (hle : offset ≤ k)
    (hlt : k < offset + width) : a[k]? = b[k]? := by
  obtain ⟨k, rfl⟩ := Nat.exists_eq_add_of_le hle
  rw [ha.2 k (by omega), hb.2 k (by omega)]

end LittleEndian

end ThreadAffinity
