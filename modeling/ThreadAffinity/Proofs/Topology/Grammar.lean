import ThreadAffinity.Proofs.Topology.RoundTrip

/-!
# What topology data means

Which data can be read, as what, and what is wrong with all other data, said without
the reader. `Stop` tells where a scan ends that has reached the data `rest` at `offset`,
and `Reading` what a record of groups comes to; each has one constructor for each way it
can go. Every number and every byte they speak of has to be there (`Field`).

The reader does just that: it gets to every end that is described (`Stop.scan`,
`Reading.readGroups_eq`) and to no other (`scan_stops`, `reading_readGroups`). So the data
as a whole is a chain of unrelated records with a stop behind it (`decode_eq_iff`). Of the
record that is read only the bytes that mean something count (`Alike.readGroups_eq`).
-/

namespace ThreadAffinity

namespace Topology

open LittleEndian

/-! ## Fields -/

def fieldAt (bytes : List UInt8) (offset width : Nat) : Nat :=
  valueOf ((bytes.drop offset).take width)

/-- The bytes at `offset` are all there, and they hold this number. -/
def Field (bytes : List UInt8) (offset width n : Nat) : Prop :=
  offset + width ≤ bytes.length ∧ fieldAt bytes offset width = n

variable {bytes record other rest : List UInt8} {offset width n i : Nat} {groups : List Group}

theorem fieldAt_lt (bytes : List UInt8) (offset width : Nat) :
    fieldAt bytes offset width < 256 ^ width :=
  Nat.lt_of_lt_of_le (valueOf_lt _) (Nat.pow_le_pow_right (by decide) (List.length_take_le _ _))

theorem fieldAt_drop (bytes : List UInt8) (skipped offset width : Nat) :
    fieldAt (bytes.drop skipped) offset width = fieldAt bytes (skipped + offset) width := by
  rw [fieldAt, fieldAt, List.drop_drop]

theorem fieldAt_congr
    (h : ∀ k, offset ≤ k → k < offset + width → bytes[k]? = other[k]?) :
    fieldAt bytes offset width = fieldAt other offset width := by
  refine congrArg valueOf (List.ext_getElem? fun k => ?_)
  rw [List.getElem?_take, List.getElem?_take]
  split
  · rw [List.getElem?_drop, List.getElem?_drop]
    exact h (offset + k) (Nat.le_add_right _ _) (by omega)
  · rfl

/-! ## Scanning -/

/-- A record of groups, whose size field tells its own length. -/
structure Related (record : List UInt8) : Prop where
  relationship : Field record 0 4 4
  size_ge : 8 ≤ record.length
  size_eq : Field record 4 4 record.length

/-- How a scan ends that has reached `rest`, which stands at `offset` of the whole. -/
inductive Stop (offset : Nat) (rest : List UInt8) : Except Problem (List UInt8) → Prop
  /-- There is no room for another record. -/
  | ended (h : rest.length < 8) : Stop offset rest (.error .noGroupRecord)
  /-- A record claims to be smaller than its own header. -/
  | undersized (size : Nat) (hsize : Field rest 4 4 size) (h : size < 8) :
      Stop offset rest (.error (.recordSize offset size))
  /-- A record claims more bytes than there are. -/
  | truncated (size : Nat) (hsize : Field rest 4 4 size) (hge : 8 ≤ size)
      (h : rest.length < size) : Stop offset rest (.error (.recordTruncated offset))
  /-- There is a record of groups, whatever stands behind it. -/
  | found (record trailing : List UInt8) (hrest : rest = record ++ trailing)
      (h : Related record) : Stop offset rest (.ok record)

theorem Related.valueOf_relationship (h : Related record) :
    valueOf (record.take 4) = groupRelationship := h.relationship.2

theorem Related.scan (h : Related record) (offset : Nat) (trailing : List UInt8) :
    scan offset (record ++ trailing) = ⟨[], .ok record⟩ := by
  rw [scan_record h.size_ge h.size_eq.2, if_pos h.valueOf_relationship]

theorem length_take_headerSize :
    (bytes.take headerSize).length < headerSize ↔ bytes.length < 8 := by
  rw [List.length_take, headerSize]
  omega

theorem Stop.scan {found : Except Problem (List UInt8)} (h : Stop offset rest found) :
    (scan offset rest).found = found := by
  cases h with
  | ended h =>
      rw [Topology.scan, if_pos (length_take_headerSize.mpr h)]
  | undersized size hsize h =>
      obtain ⟨hroom, rfl⟩ := hsize
      have hheader : ¬ (rest.take headerSize).length < headerSize := by
        rw [length_take_headerSize]
        omega
      rw [Topology.scan, if_neg hheader]
      exact congrArg Scan.found (if_pos h)
  | truncated size hsize hge h =>
      obtain ⟨hroom, rfl⟩ := hsize
      have hheader : ¬ (rest.take headerSize).length < headerSize := by
        rw [length_take_headerSize]
        omega
      have hcut : (rest.take (fieldAt rest 4 4)).length < fieldAt rest 4 4 := by
        rw [List.length_take]
        omega
      rw [Topology.scan, if_neg hheader]
      refine congrArg Scan.found ((if_neg (Nat.not_lt.mpr hge)).trans (if_pos hcut))
  | found record trailing hrest h =>
      rw [hrest, h.scan]

/-- The header of a record that is all there is the header of the data it stands in
front of. -/
theorem field_take (bytes : List UInt8) (offset width : Nat) {size : Nat}
    (hroom : size ≤ bytes.length) (hfit : offset + width ≤ size) :
    Field (bytes.take size) offset width (fieldAt bytes offset width) := by
  refine ⟨?_, fieldAt_congr fun k _ hk => ?_⟩
  · rw [List.length_take, Nat.min_eq_left hroom]
    exact hfit
  · rw [List.getElem?_take, if_pos (by omega)]

/-- Every scan passes over a chain of unrelated records and then stops. -/
theorem scan_stops (offset : Nat) (bytes : List UInt8) :
    ∃ (records : List (List UInt8)) (rest : List UInt8), bytes = records.flatten ++ rest ∧
      (∀ record ∈ records, Unrelated record) ∧
      Stop (offset + records.flatten.length) rest (scan offset bytes).found := by
  fun_induction scan offset bytes with
  | case1 offset bytes hheader =>
      exact ⟨[], bytes, rfl, nofun, .ended (length_take_headerSize.mp hheader)⟩
  | case2 offset bytes hheader size hsize =>
      rw [length_take_headerSize] at hheader
      exact ⟨[], bytes, rfl, nofun, .undersized size ⟨by omega, rfl⟩ hsize⟩
  | case3 offset bytes hheader size hsize record hcut =>
      rw [length_take_headerSize] at hheader
      rw [List.length_take] at hcut
      exact ⟨[], bytes, rfl, nofun,
        .truncated size ⟨by omega, rfl⟩ (Nat.le_of_not_lt hsize) (by omega)⟩
  | case4 offset bytes hheader relationship size hsize record hcut hrelated =>
      have hge : 8 ≤ size := Nat.le_of_not_lt hsize
      have hroom : size ≤ bytes.length := by
        rw [List.length_take] at hcut
        omega
      have hlength : record.length = size := List.length_take_of_le hroom
      have hrelationship := field_take bytes 0 4 hroom (by omega)
      have hfield := field_take bytes 4 4 hroom (by omega)
      rw [show fieldAt bytes 0 4 = 4 from hrelated] at hrelationship
      have hrecord : Related record := ⟨hrelationship, hlength ▸ hge, hlength ▸ hfield⟩
      exact ⟨[], bytes, rfl, nofun,
        .found record (bytes.drop size) (List.take_append_drop size bytes).symm hrecord⟩
  | case5 offset bytes hheader relationship size hsize record hcut hunrelated rest ih =>
      have hge : 8 ≤ size := Nat.le_of_not_lt hsize
      have hroom : size ≤ bytes.length := by
        rw [List.length_take] at hcut
        omega
      have hlength : record.length = size := List.length_take_of_le hroom
      have hrelationship : valueOf (record.take 4) = relationship :=
        (field_take bytes 0 4 hroom (by omega)).2
      have hfield : valueOf ((record.drop 4).take 4) = size :=
        (field_take bytes 4 4 hroom (by omega)).2
      have hrecord : Unrelated record :=
        ⟨hrelationship ▸ hunrelated, hfield ▸ hge, hfield.trans hlength.symm⟩
      obtain ⟨records, behind, hbehind, hrecords, hstop⟩ := ih
      refine ⟨record :: records, behind, ?_, ?_, ?_⟩
      · rw [List.flatten_cons, List.append_assoc, ← hbehind]
        exact (List.take_append_drop size bytes).symm
      · exact List.forall_mem_cons.mpr ⟨hrecord, hrecords⟩
      · rw [List.flatten_cons, List.length_append, hlength, ← Nat.add_assoc]
        exact hstop

/-! ## Reading a record of groups -/

inductive Reading (record : List UInt8) : Except Problem (List Group) → Prop
  /-- The record ends inside its group count. -/
  | cutCount (h : record.length < 12) : Reading record (.error (.fieldTruncated 2))
  /-- The record counts no groups. -/
  | noGroups (h : Field record 10 2 0) : Reading record (.error .noGroups)
  /-- The record ends inside an entry or before it, and this is the first such entry. -/
  | cutGroup (n i : Nat) (hcount : Field record 10 2 n) (hi : i < n)
      (hcut : record.length < 32 + 48 * (i + 1))
      (hfirst : ∀ j < i, 32 + 48 * (j + 1) ≤ record.length) :
      Reading record (.error (.groupTruncated i))
  /-- The record has an entry for each group it counts. -/
  | whole (groups : List Group) (hcount : Field record 10 2 groups.length)
      (hpos : 1 ≤ groups.length) (hroom : 32 + 48 * groups.length ≤ record.length)
      (hgroup : ∀ i g, groups[i]? = some g → record[32 + 48 * i + 1]? = some g.count ∧
        Field record (32 + 48 * i + 40) 8 g.mask.toNat) :
      Reading record (.ok groups)

def entryAt (bytes : List UInt8) (offset : Nat) : Group :=
  ⟨bytes.getD (offset + 1) 0, BitVec.ofNat 64 (fieldAt bytes (offset + 40) 8)⟩

theorem entryAt_take (bytes : List UInt8) :
    (⟨(bytes.take entrySize).getD 1 0,
      BitVec.ofNat 64 (valueOf ((bytes.take entrySize).drop maskOffset))⟩ : Group) = entryAt bytes 0 := by
  have hmask : (bytes.take entrySize).drop maskOffset = (bytes.drop 40).take 8 := by
    rw [List.drop_take]
    rfl
  have hcount : (bytes.take entrySize).getD 1 0 = bytes.getD 1 0 := by
    rw [List.getD_eq_getElem?_getD, List.getElem?_take, if_pos (by decide),
      ← List.getD_eq_getElem?_getD]
  rw [hmask, hcount]
  rfl

theorem entryAt_drop (bytes : List UInt8) (skipped offset : Nat) :
    entryAt (bytes.drop skipped) offset = entryAt bytes (skipped + offset) := by
  rw [entryAt, fieldAt_drop, List.getD_eq_getElem?_getD, List.getElem?_drop,
    ← List.getD_eq_getElem?_getD]
  rfl

/-- Reading entries needs all their bytes; the index of the first one that is cut is the
number of those that are whole. -/
theorem readEntries_eq (count index : Nat) (bytes : List UInt8) (seen : List Group) :
    readEntries count index bytes seen =
      if 48 * count ≤ bytes.length then
        .ok (seen.reverse ++ (List.range count).map fun i => entryAt bytes (48 * i))
      else .error (.groupTruncated (index + bytes.length / 48)) := by
  induction count generalizing index bytes seen with
  | zero => simp [readEntries]
  | succ count ih =>
      rw [readEntries]
      simp only [entryAt_take]
      simp only [List.length_take, entrySize, maskOffset, Nat.reduceAdd]
      rcases Nat.lt_or_ge bytes.length 48 with hcut | hwhole
      · have hzero : bytes.length / 48 = 0 := Nat.div_eq_of_lt hcut
        rw [if_pos (by omega), if_neg (by omega), hzero, Nat.add_zero]
      · have hdiv : index + 1 + (bytes.length - 48) / 48 = index + bytes.length / 48 := by omega
        have hfits : 48 * count ≤ bytes.length - 48 ↔ 48 * (count + 1) ≤ bytes.length := by omega
        have hentries : ((List.range (count + 1)).map fun i => entryAt bytes (48 * i)) =
            entryAt bytes 0 ::
              (List.range count).map fun i => entryAt (bytes.drop 48) (48 * i) := by
          rw [List.range_succ_eq_map, List.map_cons, List.map_map]
          congr 1
          refine List.map_congr_left fun i _ => ?_
          rw [entryAt_drop, Function.comp_apply, Nat.mul_succ, Nat.add_comm]
        rw [if_neg (by omega), ih, List.length_drop, hdiv, hentries]
        simp only [hfits, List.reverse_cons, List.append_assoc, List.singleton_append]

theorem readGroups_eq (record : List UInt8) :
    readGroups record =
      if record.length < 12 then .error (.fieldTruncated 2)
      else if fieldAt record 10 2 = 0 then .error .noGroups
      else if 32 + 48 * fieldAt record 10 2 ≤ record.length then
        .ok ((List.range (fieldAt record 10 2)).map fun i => entryAt record (32 + 48 * i))
      else .error (.groupTruncated ((record.length - 32) / 48)) := by
  have hcount : ((record.drop headerSize).drop 2).take 2 = (record.drop 10).take 2 := by
    rw [List.drop_drop]
    rfl
  have hbody : (record.drop headerSize).drop countsSize = record.drop 32 := by
    rw [List.drop_drop]
    rfl
  have hcut : ((record.drop 10).take 2).length < 2 ↔ record.length < 12 := by
    rw [List.length_take, List.length_drop]
    omega
  rw [readGroups, hcount, hbody]
  simp only [hcut]
  rw [← fieldAt, readEntries_eq, List.length_drop, List.reverse_nil, List.nil_append]
  simp only [entryAt_drop, Nat.zero_add]
  generalize fieldAt record 10 2 = n
  rcases Nat.lt_or_ge record.length 12 with hshort | hlong
  · rw [if_pos hshort, if_pos hshort]
  rw [if_neg (Nat.not_lt.mpr hlong), if_neg (Nat.not_lt.mpr hlong)]
  cases n with
  | zero => simp
  | succ n =>
      have hfits : 48 * (n + 1) ≤ record.length - 32 ↔ 32 + 48 * (n + 1) ≤ record.length := by
        omega
      rw [if_neg (Nat.succ_ne_zero n)]
      simp only [hfits]
      by_cases hroom : 32 + 48 * (n + 1) ≤ record.length
      · rw [if_pos hroom, List.range_succ_eq_map, List.map_cons]
      · rw [if_neg hroom]

theorem getElem?_entryAt (h : 32 + 48 * (i + 1) ≤ record.length) :
    record[32 + 48 * i + 1]? = some (entryAt record (32 + 48 * i)).count ∧
      Field record (32 + 48 * i + 40) 8 (entryAt record (32 + 48 * i)).mask.toNat := by
  have hbound : 32 + 48 * i + 1 < record.length := by omega
  refine ⟨?_, by omega, ?_⟩
  · rw [entryAt, List.getD_eq_getElem?_getD, List.getElem?_eq_getElem hbound]
    rfl
  · rw [entryAt, BitVec.toNat_ofNat]
    exact (Nat.mod_eq_of_lt (fieldAt_lt record _ 8)).symm

theorem eq_entryAt {g : Group} (hcount : record[32 + 48 * i + 1]? = some g.count)
    (hmask : Field record (32 + 48 * i + 40) 8 g.mask.toNat) :
    entryAt record (32 + 48 * i) = g := by
  rw [entryAt, List.getD_eq_getElem?_getD, hcount, hmask.2, BitVec.ofNat_toNat,
    BitVec.setWidth_eq]
  rfl

theorem Reading.readGroups_eq {result : Except Problem (List Group)} (h : Reading record result) :
    readGroups record = result := by
  rw [Topology.readGroups_eq]
  cases h with
  | cutCount h => rw [if_pos h]
  | noGroups h =>
      obtain ⟨hroom, hzero⟩ := h
      rw [if_neg (by omega), if_pos hzero]
  | cutGroup n i hcount hi hcut hfirst =>
      obtain ⟨hroom, rfl⟩ := hcount
      have hwhole : 48 * i ≤ record.length - 32 := by
        cases i with
        | zero => exact Nat.zero_le _
        | succ i =>
            have := hfirst i (Nat.lt_succ_self i)
            omega
      have hindex : (record.length - 32) / 48 = i := by omega
      rw [if_neg (by omega), if_neg (by omega), if_neg (by omega), hindex]
  | whole groups hcount hpos hroom hgroup =>
      obtain ⟨hcountRoom, hcount⟩ := hcount
      rw [hcount, if_neg (by omega), if_neg (by omega), if_pos hroom]
      refine congrArg Except.ok (List.ext_getElem? fun i => ?_)
      rw [List.getElem?_map]
      rcases Nat.lt_or_ge i groups.length with hi | hi
      · obtain ⟨hg, hmask⟩ := hgroup i groups[i] (List.getElem?_eq_getElem hi)
        rw [List.getElem?_range hi, List.getElem?_eq_getElem hi, Option.map_some,
          eq_entryAt hg hmask]
      · rw [List.getElem?_eq_none hi, List.getElem?_eq_none (by simpa using hi)]
        rfl

theorem reading_readGroups (record : List UInt8) : Reading record (readGroups record) := by
  rw [readGroups_eq]
  split
  · exact .cutCount (by assumption)
  rename_i hlong
  have hroom : 10 + 2 ≤ record.length := by omega
  split
  · exact .noGroups ⟨hroom, by assumption⟩
  rename_i hne
  split
  · rename_i hfits
    have hlength : ((List.range (fieldAt record 10 2)).map
        fun i => entryAt record (32 + 48 * i)).length = fieldAt record 10 2 := by
      rw [List.length_map, List.length_range]
    refine .whole _ ⟨hroom, hlength.symm⟩ (by omega) (by omega) fun i g hg => ?_
    obtain ⟨j, hj, rfl⟩ := Option.map_eq_some_iff.mp (List.getElem?_map.symm.trans hg)
    obtain ⟨hi, rfl⟩ := List.getElem?_eq_some_iff.mp hj
    rw [List.length_range] at hi
    rw [List.getElem_range]
    exact getElem?_entryAt (by omega)
  · exact .cutGroup (fieldAt record 10 2) _ ⟨hroom, rfl⟩ (by omega) (by omega) fun j hj => by omega

/-! ## The whole -/

/-- What data comes to when the scan has reached `rest`, at `offset` of the whole. -/
inductive Verdict (offset : Nat) (rest : List UInt8) : Except Problem (List Group) → Prop
  | stopped (problem : Problem) (h : Stop offset rest (.error problem)) :
      Verdict offset rest (.error problem)
  | read (record : List UInt8) (result : Except Problem (List Group))
      (hfound : Stop offset rest (.ok record)) (h : Reading record result) :
      Verdict offset rest result

theorem decode_eq_iff (bytes : List UInt8) (result : Except Problem (List Group)) :
    decode bytes = result ↔
      ∃ (records : List (List UInt8)) (rest : List UInt8), bytes = records.flatten ++ rest ∧
        (∀ record ∈ records, Unrelated record) ∧ Verdict records.flatten.length rest result := by
  constructor
  · rintro rfl
    obtain ⟨records, rest, hbytes, hrecords, hstop⟩ := scan_stops 0 bytes
    rw [Nat.zero_add] at hstop
    refine ⟨records, rest, hbytes, hrecords, ?_⟩
    rw [decode]
    cases hfound : (scan 0 bytes).found with
    | error problem =>
        rw [hfound] at hstop
        exact .stopped problem hstop
    | ok record =>
        rw [hfound] at hstop
        exact .read record _ hstop (reading_readGroups record)
  · rintro ⟨records, rest, rfl, hrecords, hverdict⟩
    rw [decode, scan_chain 0 hrecords, Nat.zero_add]
    cases hverdict with
    | stopped problem hstop => rw [hstop.scan]
    | read record result hfound hreading =>
        rw [hfound.scan]
        exact hreading.readGroups_eq

/-! ## What does not matter -/

/-- The byte at this position of a record of groups means nothing: it belongs to a maximum
count or is unused. -/
def Spare (k : Nat) : Prop :=
  (8 ≤ k ∧ k < 10) ∨ (12 ≤ k ∧ k < 32) ∨
    (32 ≤ k ∧ ((k - 32) % 48 = 0 ∨ (2 ≤ (k - 32) % 48 ∧ (k - 32) % 48 < 40)))

instance (k : Nat) : Decidable (Spare k) := inferInstanceAs (Decidable (_ ∨ _ ∨ _))

/-- Two records of one length that differ in spare bytes only. -/
def Alike (record other : List UInt8) : Prop :=
  record.length = other.length ∧ ∀ k, ¬ Spare k → record[k]? = other[k]?

theorem Alike.fieldAt_eq (h : Alike record other) (offset width : Nat)
    (hused : ∀ k, offset ≤ k → k < offset + width → ¬ Spare k) :
    fieldAt record offset width = fieldAt other offset width :=
  fieldAt_congr fun k hle hlt => h.2 k (hused k hle hlt)

theorem Alike.related (h : Alike record other) (hrecord : Related record) : Related other where
  relationship := by
    have hfield := h.fieldAt_eq 0 4 fun k _ hk => by
      simp only [Spare]
      omega
    exact ⟨h.1 ▸ hrecord.relationship.1, hfield ▸ hrecord.relationship.2⟩
  size_ge := h.1 ▸ hrecord.size_ge
  size_eq := by
    have hfield := h.fieldAt_eq 4 4 fun k _ hk => by
      simp only [Spare]
      omega
    exact ⟨h.1 ▸ hrecord.size_eq.1, by rw [← hfield, ← h.1, hrecord.size_eq.2]⟩

theorem Alike.entryAt_eq (h : Alike record other) (i : Nat) :
    entryAt record (32 + 48 * i) = entryAt other (32 + 48 * i) := by
  have hcount : record[32 + 48 * i + 1]? = other[32 + 48 * i + 1]? := by
    refine h.2 _ ?_
    simp only [Spare]
    omega
  have hmask := h.fieldAt_eq (32 + 48 * i + 40) 8 fun k hle hlt => by
    simp only [Spare]
    omega
  rw [entryAt, entryAt, hmask, List.getD_eq_getElem?_getD, hcount, ← List.getD_eq_getElem?_getD]

theorem Alike.readGroups_eq (h : Alike record other) : readGroups record = readGroups other := by
  have hcount := h.fieldAt_eq 10 2 fun k hle hlt => by
    simp only [Spare]
    omega
  simp only [Topology.readGroups_eq, h.1, hcount, h.entryAt_eq]

theorem Related.decode_eq (h : Related record) {records : List (List UInt8)}
    (hrecords : ∀ record ∈ records, Unrelated record) (trailing : List UInt8) :
    decode (records.flatten ++ record ++ trailing) = readGroups record := by
  rw [decode, List.append_assoc, scan_chain 0 hrecords, h.scan]

/-- What data comes to is told by its grammar. Neither the spare bytes of the record of
groups nor anything behind that record has a say in it. -/
theorem decode_exactly :
    (∀ bytes result, decode bytes = result ↔
        ∃ (records : List (List UInt8)) (rest : List UInt8), bytes = records.flatten ++ rest ∧
          (∀ record ∈ records, Unrelated record) ∧ Verdict records.flatten.length rest result) ∧
      ∀ (records : List (List UInt8)) record other trailing behind,
        (∀ record ∈ records, Unrelated record) → Related record → Alike record other →
        decode (records.flatten ++ record ++ trailing) =
          decode (records.flatten ++ other ++ behind) := by
  refine ⟨decode_eq_iff, fun records record other trailing behind hrecords hrelated halike => ?_⟩
  rw [hrelated.decode_eq hrecords, (halike.related hrelated).decode_eq hrecords,
    halike.readGroups_eq]

/-- A record of one group with something written into every spare byte. -/
def scribbled : List UInt8 :=
  bytesOf 4 4 ++ bytesOf 4 80 ++ [0xff, 0xff, 1, 0] ++ List.replicate 20 0xab ++ [0, 2] ++
    List.replicate 38 0xcd ++ bytesOf 8 3

theorem decode_exactly_scribbled :
    Related (groupRecord [⟨2, 3⟩]) ∧ Alike (groupRecord [⟨2, 3⟩]) scribbled ∧
      decode ([].flatten ++ groupRecord [⟨2, 3⟩] ++ []) =
        decode ([].flatten ++ scribbled ++ [4, 0, 0, 0, 0]) := by
  have hrelated : Related (groupRecord [⟨2, 3⟩]) :=
    ⟨⟨by decide, by decide⟩, by decide, ⟨by decide, by decide⟩⟩
  have hbytes : ∀ k < 80, ¬ Spare k → (groupRecord [⟨2, 3⟩])[k]? = scribbled[k]? := by decide
  have halike : Alike (groupRecord [⟨2, 3⟩]) scribbled := by
    refine ⟨by decide, fun k hk => ?_⟩
    rcases Nat.lt_or_ge k 80 with hlt | hge
    · exact hbytes k hlt hk
    · rw [List.getElem?_eq_none hge, List.getElem?_eq_none hge]
  exact ⟨hrelated, halike, decode_exactly.2 [] _ _ _ _ nofun hrelated halike⟩

end Topology

end ThreadAffinity
