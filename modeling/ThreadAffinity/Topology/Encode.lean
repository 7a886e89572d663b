import ThreadAffinity.Error
import ThreadAffinity.Topology.Group
import ThreadAffinity.Topology.LittleEndian

/-!
# Topology data, written

Topology data is a chain of records. A record opens with two 32-bit numbers, its
relationship and its size in bytes; in a record of the relationship "groups" there
follow the group counts, padding, and one entry of fixed size per group.

```
0   relationship    4 bytes
4   size            4 bytes
8   maximum count   2 bytes
10  active count    2 bytes
12  unused          20 bytes
32  one entry of 48 bytes per group:
      0   maximum processors   1 byte
      1   processors in use    1 byte
      2   unused               38 bytes
      40  positions in use     8 bytes
```
-/

namespace ThreadAffinity

namespace Topology

/-! ## Layout -/

def groupRelationship : Nat := 4

/-- The bytes of relationship and size. -/
def headerSize : Nat := 8

/-- The bytes of the group counts and the padding behind them. -/
def countsSize : Nat := 24

def maskOffset : Nat := 40

/-- The bytes of one group's entry: all that stands before the mask, and the mask. -/
def entrySize : Nat := maskOffset + 8

/-- No group has room for more processors than its mask has bits. -/
def maximumProcessors : UInt8 := 64

/-- The active count of a record has sixteen bits. -/
def groupLimit : Nat := 0x10000

/-- The size of a record has thirty-two bits. -/
def sizeLimit : Nat := 0x100000000

def recordSize (count : Nat) : Nat := headerSize + countsSize + entrySize * count

/-! ## Writing -/

/-- Bytes with zeros behind them, up to a size. -/
def padded (size : Nat) (bytes : List UInt8) : List UInt8 :=
  bytes ++ List.replicate (size - bytes.length) 0

theorem length_padded {size : Nat} {bytes : List UInt8} (h : bytes.length ≤ size) :
    (padded size bytes).length = size := by
  rw [padded, List.length_append, List.length_replicate]
  omega

def entryOf (g : Group) : List UInt8 :=
  padded maskOffset [maximumProcessors, g.count] ++ LittleEndian.bytesOf 8 g.mask.toNat

/-- The numbers at the front of the record of `count` groups. -/
def numbersOf (count : Nat) : List UInt8 :=
  LittleEndian.bytesOf 4 groupRelationship ++ LittleEndian.bytesOf 4 (recordSize count) ++
    LittleEndian.bytesOf 2 count ++ LittleEndian.bytesOf 2 count

/-- What stands before the entries in the record of `count` groups. -/
def headerOf (count : Nat) : List UInt8 := padded (headerSize + countsSize) (numbersOf count)

/-- The one record that describes a list of groups. -/
def encode (groups : List Group) : Except Error (List UInt8) :=
  if groups.length < groupLimit then
    if recordSize groups.length < sizeLimit then
      .ok (headerOf groups.length ++ groups.flatMap entryOf)
    else .error (.malformedTopology (.recordTooLarge (recordSize groups.length)))
  else .error (.malformedTopology (.tooManyGroups groups.length))

@[simp] theorem length_entryOf (g : Group) : (entryOf g).length = entrySize := by
  rw [entryOf, List.length_append, length_padded (by decide : 2 ≤ maskOffset),
    LittleEndian.length_bytesOf, entrySize]

@[simp] theorem length_numbersOf (count : Nat) : (numbersOf count).length = 12 := by
  simp only [numbersOf, List.length_append, LittleEndian.length_bytesOf]

@[simp] theorem length_headerOf (count : Nat) :
    (headerOf count).length = headerSize + countsSize := by
  have hroom : (numbersOf count).length ≤ headerSize + countsSize := by
    rw [length_numbersOf]
    decide
  exact length_padded hroom

theorem length_flatMap_entryOf (groups : List Group) :
    (groups.flatMap entryOf).length = entrySize * groups.length := by
  induction groups with
  | nil => rfl
  | cons g groups ih => simp [ih, Nat.mul_add, Nat.add_comm]

end Topology

end ThreadAffinity
