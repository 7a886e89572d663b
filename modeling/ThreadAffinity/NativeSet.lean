import ThreadAffinity.CpuList.Printer
import ThreadAffinity.Words

/-!
# Native processor sets

The set a system reads a selection from: a block of words of any length, chosen
when the set is made. Unlike a mask it knows no limit of its own; a processor
that has no bit in the block is left out.
-/

namespace ThreadAffinity

/-- A block of words in the layout the system reads. -/
structure NativeSet where
  words : Array Word
deriving Repr, DecidableEq

namespace NativeSet

/-- The largest number a capacity is reported as. -/
def capacityLimit : Nat := 0xffffffff

/-- An empty set with room for at least `capacity` processors, in whole words. -/
def ofCapacity (capacity : Nat) : NativeSet := ⟨Words.zeros ((capacity + 63) / 64)⟩

def byteSize (set : NativeSet) : Nat := 8 * set.words.size

/-- How many processors the set has room for, as far as that can be reported. -/
def capacity (set : NativeSet) : Nat :=
  min (64 * min set.words.size capacityLimit) capacityLimit

def clear (set : NativeSet) : NativeSet := ⟨Words.clear set.words⟩

/-- Selects a processor if it has a bit, and says whether it has. -/
def insert (set : NativeSet) (processor : Nat) : Bool × NativeSet :=
  (decide (processor < Words.room set.words), ⟨Words.put set.words processor⟩)

def contains (set : NativeSet) (processor : Nat) : Bool := Words.test set.words processor

/-- The selected processors below the capacity, in increasing order. -/
def members (set : NativeSet) : List Nat := (List.range set.capacity).filter set.contains

/-- The processors selected in the first `size` bytes, in increasing order: bit
`i % 8` of byte `i / 8` is processor `i`. -/
def membersWithin (set : NativeSet) (size : Nat) : List Nat :=
  (List.range (8 * size)).filter set.contains

def describe (set : NativeSet) : String :=
  "CpuSet \x7b capacity: " ++ toString set.capacity ++ ", selected: \"" ++
    CpuList.print set.members ++ "\" \x7d"

/-! ## The view -/

@[simp] theorem contains_ofCapacity (n p : Nat) : (ofCapacity n).contains p = false :=
  Words.test_zeros _ _

@[simp] theorem contains_clear (set : NativeSet) (p : Nat) : set.clear.contains p = false :=
  Words.test_clear _ _

theorem contains_insert (set : NativeSet) (p q : Nat) :
    (set.insert p).2.contains q = (set.contains q || ((set.insert p).1 && decide (p = q))) := by
  by_cases h : p < Words.room set.words
  · simp [contains, insert, Words.test_put h, h]
  · simp [contains, insert, Words.put_of_room_le (Nat.le_of_not_lt h), h]

@[simp] theorem size_words_insert (set : NativeSet) (p : Nat) :
    (set.insert p).2.words.size = set.words.size := Words.size_put _ _

@[simp] theorem size_words_clear (set : NativeSet) : set.clear.words.size = set.words.size :=
  Words.size_clear _

@[simp] theorem capacity_insert (set : NativeSet) (p : Nat) :
    (set.insert p).2.capacity = set.capacity := by
  rw [capacity, size_words_insert, capacity]

@[simp] theorem capacity_clear (set : NativeSet) : set.clear.capacity = set.capacity := by
  rw [capacity, size_words_clear, capacity]

end NativeSet

end ThreadAffinity
