import ThreadAffinity.Proofs.LittleEndian
import ThreadAffinity.Topology.Decode

/-!
# Topology data written and read back

What is written for a list of groups is read back as that list, wherever it stands
in the data: records of other relationships may come before it, and any bytes may
come after it.

Two inductions carry this. Over the records in front, `scan_chain` says that a scan
passes over each of them and goes on behind it. Over the groups, `readEntries_entries`
says that the entries are read off one by one. In between stands the record of the
groups itself, which the scan finds (`scan_groupRecord`) and whose fields say how
many entries there are (`readGroups_groupRecord`).
-/

namespace ThreadAffinity

namespace Topology

open LittleEndian

/-! ## Records -/

/-- A record of another relationship, whose size field tells its own length. -/
structure Unrelated (record : List UInt8) : Prop where
  relationship : valueOf (record.take 4) ≠ groupRelationship
  size_ge : headerSize ≤ valueOf ((record.drop 4).take 4)
  size_eq : valueOf ((record.drop 4).take 4) = record.length

def groupRecord (groups : List Group) : List UInt8 :=
  headerOf groups.length ++ groups.flatMap entryOf

theorem length_groupRecord (groups : List Group) :
    (groupRecord groups).length = recordSize groups.length := by
  rw [groupRecord, List.length_append, length_headerOf, length_flatMap_entryOf, recordSize]

/-- The four numbers stand at the front of a record, one behind the other. -/
theorem groupRecord_eq_append (groups : List Group) : ∃ rest, groupRecord groups =
    bytesOf 4 groupRelationship ++ (bytesOf 4 (recordSize groups.length) ++
      (bytesOf 2 groups.length ++ (bytesOf 2 groups.length ++ rest))) := by
  rw [groupRecord, headerOf, padded, numbersOf]
  simp only [List.append_assoc]
  exact ⟨_, rfl⟩

/-- Groups that can be counted make no record that is too large. -/
theorem recordSize_lt {count : Nat} (h : count < groupLimit) : recordSize count < sizeLimit := by
  simp only [groupLimit] at h
  simp only [recordSize, headerSize, countsSize, entrySize, maskOffset, sizeLimit]
  omega

/-- It is their number alone that groups can be refused for. -/
theorem encode_eq (groups : List Group) :
    encode groups = if groups.length < groupLimit then .ok (groupRecord groups)
      else .error (.malformedTopology (.tooManyGroups groups.length)) := by
  unfold encode
  split
  · rename_i h
    rw [if_pos (recordSize_lt h), groupRecord]
  · rfl

theorem encode_of_lt {groups : List Group} (h : groups.length < groupLimit) :
    encode groups = .ok (groupRecord groups) := (encode_eq groups).trans (if_pos h)

theorem encode_of_ge {groups : List Group} (h : groupLimit ≤ groups.length) :
    encode groups = .error (.malformedTopology (.tooManyGroups groups.length)) :=
  (encode_eq groups).trans (if_neg (Nat.not_lt.mpr h))

/-! ## Scanning -/

/-- A scan that meets a record of sound size takes it up whole. -/
theorem scan_record {offset : Nat} {record rest : List UInt8} (hlong : headerSize ≤ record.length)
    (hsize : valueOf ((record.drop 4).take 4) = record.length) :
    scan offset (record ++ rest) =
      if valueOf (record.take 4) = groupRelationship then ⟨[], .ok record⟩
      else ⟨record :: (scan (offset + record.length) rest).skipped,
        (scan (offset + record.length) rest).found⟩ := by
  have hlong' : 8 ≤ record.length := hlong
  have hheader : ((record ++ rest).take headerSize).length = headerSize := by
    rw [List.length_take, List.length_append, Nat.min_eq_left (by omega)]
  have hrelationship : (record ++ rest).take 4 = record.take 4 :=
    List.take_append_of_le_length (by omega)
  have hfield : ((record ++ rest).drop 4).take 4 = (record.drop 4).take 4 := by
    rw [List.drop_append_of_le_length (by omega)]
    exact List.take_append_of_le_length (by rw [List.length_drop]; omega)
  rw [scan, if_neg (by omega)]
  simp only [hrelationship, hfield, hsize, List.take_left', List.drop_left']
  rw [if_neg (Nat.not_lt.mpr hlong), if_neg (Nat.lt_irrefl _)]

theorem scan_chain (offset : Nat) {records : List (List UInt8)}
    (hrecords : ∀ record ∈ records, Unrelated record) (rest : List UInt8) :
    scan offset (records.flatten ++ rest) =
      ⟨records ++ (scan (offset + records.flatten.length) rest).skipped,
        (scan (offset + records.flatten.length) rest).found⟩ := by
  induction records generalizing offset with
  | nil => rfl
  | cons record records ih =>
      have hrecord := hrecords record List.mem_cons_self
      have hlong : headerSize ≤ record.length := by
        rw [← hrecord.size_eq]
        exact hrecord.size_ge
      rw [List.flatten_cons, List.append_assoc, scan_record hlong hrecord.size_eq,
        if_neg hrecord.relationship, ih (offset + record.length)
          fun r hr => hrecords r (List.mem_cons_of_mem record hr)]
      simp only [List.cons_append, List.length_append, Nat.add_assoc]

theorem scan_groupRecord (offset : Nat) {groups : List Group} (hlen : groups.length < groupLimit)
    (trailing : List UInt8) :
    scan offset (groupRecord groups ++ trailing) = ⟨[], .ok (groupRecord groups)⟩ := by
  obtain ⟨rest, hrecord⟩ := groupRecord_eq_append groups
  have hrelationship : valueOf ((groupRecord groups).take 4) = groupRelationship := by
    rw [hrecord, List.take_left' (length_bytesOf _ _)]
    exact valueOf_bytesOf (by decide)
  have hsize : valueOf (((groupRecord groups).drop 4).take 4) = (groupRecord groups).length := by
    rw [length_groupRecord, hrecord, List.drop_left' (length_bytesOf _ _),
      List.take_left' (length_bytesOf _ _)]
    exact valueOf_bytesOf (recordSize_lt hlen)
  have hlong : headerSize ≤ (groupRecord groups).length := by
    rw [length_groupRecord, recordSize, Nat.add_assoc]
    exact Nat.le_add_right _ _
  rw [scan_record hlong hsize, if_pos hrelationship]

/-! ## Reading the groups -/

theorem readEntries_entries (groups : List Group) (index : Nat) (seen : List Group) :
    readEntries groups.length index (groups.flatMap entryOf) seen =
      .ok (seen.reverse ++ groups) := by
  induction groups generalizing index seen with
  | nil => simp [readEntries]
  | cons g groups ih =>
      have htake : (entryOf g ++ groups.flatMap entryOf).take entrySize = entryOf g :=
        List.take_left' (length_entryOf g)
      have hdrop : (entryOf g ++ groups.flatMap entryOf).drop entrySize =
          groups.flatMap entryOf := List.drop_left' (length_entryOf g)
      have hmask : valueOf ((entryOf g).drop maskOffset) = g.mask.toNat := by
        have hfield : (entryOf g).drop maskOffset = bytesOf 8 g.mask.toNat :=
          List.drop_left' (length_padded (by decide : 2 ≤ maskOffset))
        rw [hfield]
        exact valueOf_bytesOf g.mask.isLt
      have hgroup : (⟨(entryOf g).getD 1 0, BitVec.ofNat 64 g.mask.toNat⟩ : Group) = g := by
        rw [BitVec.ofNat_toNat, BitVec.setWidth_eq]
        rfl
      rw [List.length_cons, List.flatMap_cons, readEntries]
      simp only [htake, hdrop, hmask, hgroup, length_entryOf, Nat.lt_irrefl, if_false]
      rw [ih, List.reverse_cons, List.append_assoc, List.singleton_append]

theorem readGroups_groupRecord {groups : List Group} (hlen : groups.length < groupLimit) :
    readGroups (groupRecord groups) = if groups = [] then .error .noGroups else .ok groups := by
  have hcount : (((groupRecord groups).drop headerSize).drop 2).take 2 =
      bytesOf 2 groups.length := by
    rw [groupRecord, headerOf]
    rfl
  have hentries : ((groupRecord groups).drop headerSize).drop countsSize =
      groups.flatMap entryOf := by
    rw [groupRecord, List.drop_drop]
    exact List.drop_left' (length_headerOf _)
  have hvalue : valueOf (bytesOf 2 groups.length) = groups.length :=
    valueOf_bytesOf hlen
  simp only [readGroups, hcount, hentries, hvalue, length_bytesOf, Nat.lt_irrefl, if_false,
    readEntries_entries, List.reverse_nil, List.nil_append]
  cases groups with
  | nil => rfl
  | cons g groups => rfl

theorem decode_chain {groups : List Group} (hlen : groups.length < groupLimit)
    {records : List (List UInt8)} (hrecords : ∀ record ∈ records, Unrelated record)
    (trailing : List UInt8) :
    decode (records.flatten ++ groupRecord groups ++ trailing) =
      if groups = [] then .error .noGroups else .ok groups := by
  rw [decode, List.append_assoc, scan_chain 0 hrecords, scan_groupRecord _ hlen]
  exact readGroups_groupRecord hlen

theorem decode_groupRecord {groups : List Group} (hpos : 0 < groups.length)
    (hlen : groups.length < groupLimit) : decode (groupRecord groups) = .ok groups := by
  have hdecode := decode_chain hlen (fun _ h => absurd h List.not_mem_nil) []
  rwa [List.append_nil, if_neg (List.length_pos_iff.mp hpos)] at hdecode

/-- Writing fails exactly for more groups than sixteen bits can count. What is written
otherwise is read back as the groups it was written for, behind any chain of unrelated
records and in front of any bytes; written for no groups at all, it is read as data
that counts no groups. -/
theorem decode_encode_in_context (groups : List Group) {records : List (List UInt8)}
    (hrecords : ∀ record ∈ records, Unrelated record) (trailing : List UInt8) :
    ((∃ error, encode groups = .error error) ↔ 65535 < groups.length) ∧
      (groups.length ≤ 65535 → ∃ bytes, encode groups = .ok bytes ∧
        decode (records.flatten ++ bytes ++ trailing) =
          if groups = [] then .error .noGroups else .ok groups) := by
  refine ⟨⟨?_, ?_⟩, ?_⟩
  · rintro ⟨error, herror⟩
    rcases Nat.lt_or_ge groups.length groupLimit with hlt | hge
    · rw [encode_of_lt hlt] at herror
      cases herror
    · exact hge
  · intro hlen
    exact ⟨_, encode_of_ge hlen⟩
  · intro hlen
    have hlen' : groups.length < groupLimit := Nat.lt_succ_of_le hlen
    exact ⟨_, encode_of_lt hlen', decode_chain hlen' hrecords trailing⟩

/-- A cache record stands in front of two groups, the second with gaps in its mask, and
what follows looks like another record of groups. -/
theorem decode_encode_behind_cache_record :
    (∀ record ∈ [bytesOf 4 2 ++ bytesOf 4 12 ++ [4, 0, 0, 0]], Unrelated record) ∧
      ∃ bytes, encode [⟨2, 3⟩, ⟨4, 0xaa⟩] = .ok bytes ∧
        decode ([bytesOf 4 2 ++ bytesOf 4 12 ++ [4, 0, 0, 0]].flatten ++ bytes ++
          groupRecord [⟨64, 0⟩]) = .ok [⟨2, 3⟩, ⟨4, 0xaa⟩] := by
  have hrecords : ∀ record ∈ [bytesOf 4 2 ++ bytesOf 4 12 ++ [4, 0, 0, 0]], Unrelated record := by
    intro record hrecord
    obtain rfl := List.mem_singleton.mp hrecord
    exact ⟨by decide, by decide, by decide⟩
  have hcontext := decode_encode_in_context [⟨2, 3⟩, ⟨4, 0xaa⟩] hrecords (groupRecord [⟨64, 0⟩])
  exact ⟨hrecords, hcontext.2 (by decide)⟩

/-! ## How many groups can be read -/

theorem length_of_readEntries {count index : Nat} {bytes : List UInt8} {seen groups : List Group}
    (h : readEntries count index bytes seen = .ok groups) :
    groups.length = seen.length + count := by
  induction count generalizing index bytes seen with
  | zero =>
      obtain rfl : seen.reverse = groups := Except.ok.inj h
      rw [List.length_reverse, Nat.add_zero]
  | succ count ih =>
      simp only [readEntries] at h
      split at h
      · cases h
      · rw [ih h, List.length_cons]
        omega

theorem length_of_readGroups {record : List UInt8} {groups : List Group}
    (h : readGroups record = .ok groups) : 0 < groups.length ∧ groups.length < groupLimit := by
  simp only [readGroups] at h
  split at h
  · cases h
  · rename_i hfield
    split at h
    · cases h
    · cases h
    · rename_i read hne hread
      obtain rfl : read = groups := Except.ok.inj h
      refine ⟨List.length_pos_iff.mpr hne, ?_⟩
      have hlen : (((record.drop headerSize).drop 2).take 2).length = 2 :=
        Nat.le_antisymm (List.length_take_le _ _) (Nat.le_of_not_lt hfield)
      have hbound := valueOf_lt (((record.drop headerSize).drop 2).take 2)
      rw [hlen] at hbound
      rw [length_of_readEntries hread, List.length_nil, Nat.zero_add]
      exact hbound

/-- Data that can be read describes at least one group, and no more than sixteen bits
can count. -/
theorem length_of_decode {bytes : List UInt8} {groups : List Group}
    (h : decode bytes = .ok groups) : 0 < groups.length ∧ groups.length < groupLimit := by
  rw [decode] at h
  split at h
  · cases h
  · exact length_of_readGroups h

end Topology

end ThreadAffinity
