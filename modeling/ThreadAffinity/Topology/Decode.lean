import ThreadAffinity.Topology.Encode

/-!
# Topology data, read

The data is scanned record by record for the first one that describes groups;
nothing behind it is looked at. `scan` keeps the records it passed over, so what
the scan did can be read off its result: the records passed over and the record
found stand one behind the other at the front of the data.

Every record takes at least its own header out of the data, so the scan ends
whatever sizes the records claim.
-/

namespace ThreadAffinity

namespace Topology

/-! ## Scanning -/

/-- What a scan came across: the records of other relationships and, unless it
met a problem first, the first group record. -/
structure Scan where
  skipped : List (List UInt8)
  found : Except Problem (List UInt8)
deriving Repr

/-- Scans data whose first byte stands at `offset` of the whole. -/
def scan (offset : Nat) (bytes : List UInt8) : Scan :=
  if (bytes.take headerSize).length < headerSize then ⟨[], .error .noGroupRecord⟩
  else
    let relationship := LittleEndian.valueOf (bytes.take 4)
    let size := LittleEndian.valueOf ((bytes.drop 4).take 4)
    if size < headerSize then ⟨[], .error (.recordSize offset size)⟩
    else
      let record := bytes.take size
      if record.length < size then ⟨[], .error (.recordTruncated offset)⟩
      else if relationship = groupRelationship then ⟨[], .ok record⟩
      else
        let rest := scan (offset + size) (bytes.drop size)
        ⟨record :: rest.skipped, rest.found⟩
termination_by bytes.length
decreasing_by
  simp only [List.length_take, headerSize] at *
  simp only [List.length_drop]
  omega

/-! ## Reading a group record -/

/-- Reads `count` entries; the first of them has the given index, and `seen` holds
those before it in reverse order. -/
def readEntries : (count index : Nat) → List UInt8 → (seen : List Group) →
    Except Problem (List Group)
  | 0, _, _, seen => .ok seen.reverse
  | count + 1, index, bytes, seen =>
    let entry := bytes.take entrySize
    if entry.length < entrySize then .error (.groupTruncated index)
    else
      let g : Group :=
        ⟨entry.getD 1 0, BitVec.ofNat 64 (LittleEndian.valueOf (entry.drop maskOffset))⟩
      readEntries count (index + 1) (bytes.drop entrySize) (g :: seen)

def readGroups (record : List UInt8) : Except Problem (List Group) :=
  let body := record.drop headerSize
  let countField := (body.drop 2).take 2
  if countField.length < 2 then .error (.fieldTruncated 2)
  else
    match readEntries (LittleEndian.valueOf countField) 0 (body.drop countsSize) [] with
    | .error problem => .error problem
    | .ok [] => .error .noGroups
    | .ok groups => .ok groups

def decode (bytes : List UInt8) : Except Problem (List Group) :=
  match (scan 0 bytes).found with
  | .error problem => .error problem
  | .ok record => readGroups record

end Topology

end ThreadAffinity
