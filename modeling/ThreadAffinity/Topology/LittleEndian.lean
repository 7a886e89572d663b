/-!
# Numbers as bytes, least significant byte first

`bytesOf count n` writes the `count` low bytes of a number and `valueOf` reads
bytes as a number.
-/

namespace ThreadAffinity

namespace LittleEndian

/-- The `count` low bytes of `n`. -/
def bytesOf : (count n : Nat) → List UInt8
  | 0, _ => []
  | count + 1, n => UInt8.ofNat n :: bytesOf count (n / 256)

def valueOf : List UInt8 → Nat
  | [] => 0
  | byte :: rest => byte.toNat + 256 * valueOf rest

@[simp] theorem length_bytesOf (count n : Nat) : (bytesOf count n).length = count := by
  induction count generalizing n with
  | zero => rfl
  | succ count ih => simp [bytesOf, ih]

end LittleEndian

end ThreadAffinity
