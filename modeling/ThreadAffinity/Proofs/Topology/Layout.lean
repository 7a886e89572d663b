import ThreadAffinity.Proofs.LittleEndian
import ThreadAffinity.Proofs.Topology.RoundTrip

/-!
# Where everything stands in topology data

That data can be read back says nothing about the layout: writer and reader could be wrong in the
same way, and the system has the layout fixed. `LaidOut` describes the record of some groups byte
by byte, by absolute positions and without regard to how it is written. What is written for up to
65535 groups is laid out so, and no other bytes are (`encode_laid_out`).

The writer puts pieces one behind the other. Each piece of the header is found by what stands in
front of it (`standsAt_append`), and entries by their index, as they are all of one length
(`getElem?_groupRecord_entry`).
-/

namespace ThreadAffinity

namespace Topology

open LittleEndian

/-- The byte at this position belongs to one of the four numbers in front, or to what the entry of
one of `count` groups says. -/
def Used (count k : Nat) : Prop :=
  k < 12 ∨ ∃ i < count, k = 32 + 48 * i ∨ k = 32 + 48 * i + 1 ∨
    (32 + 48 * i + 40 ≤ k ∧ k < 32 + 48 * i + 48)

/-- The record of some groups, byte by byte. -/
structure LaidOut (groups : List Group) (bytes : List UInt8) : Prop where
  length_eq : bytes.length = 32 + 48 * groups.length
  relationship : StandsAt bytes 0 4 4
  size : StandsAt bytes 4 4 bytes.length
  maximumCount : StandsAt bytes 8 2 groups.length
  activeCount : StandsAt bytes 10 2 groups.length
  entry : ∀ i g, groups[i]? = some g → bytes[32 + 48 * i]? = some 64 ∧
    bytes[32 + 48 * i + 1]? = some g.count ∧ StandsAt bytes (32 + 48 * i + 40) 8 g.mask.toNat
  unused : ∀ k < bytes.length, ¬ Used groups.length k → bytes[k]? = some 0

variable {groups : List Group} {a b : List UInt8} {j k : Nat}

/-! ## What is written -/

theorem getElem?_groupRecord_entry (groups : List Group) (i : Nat) (hj : j < 48) :
    (groupRecord groups)[32 + 48 * i + j]? = groups[i]?.bind fun g => (entryOf g)[j]? := by
  have hheader : (headerOf groups.length).length = 32 := length_headerOf _
  have hbehind : 32 + 48 * i + j - 32 = 48 * i + j := by omega
  rw [groupRecord, List.getElem?_append_right (by omega), hheader, hbehind]
  exact getElem?_flatMap_of_length length_entryOf groups i hj

theorem getElem?_padded {size : Nat} {bytes : List UInt8} (hle : bytes.length ≤ k)
    (hlt : k < size) :
    (padded size bytes)[k]? = some 0 := by
  rw [padded, List.getElem?_append_right hle, List.getElem?_replicate_of_lt (by omega)]

theorem getElem?_entryOf_mask (g : Group) (hk : k < 8) :
    (entryOf g)[40 + k]? = some (UInt8.ofNat (g.mask.toNat / 256 ^ k)) := by
  have hfront : (padded maskOffset [maximumProcessors, g.count]).length = 40 :=
    length_padded (by decide : 2 ≤ maskOffset)
  rw [entryOf, List.getElem?_append_right (by omega), hfront, Nat.add_sub_cancel_left,
    getElem?_bytesOf hk]

theorem getElem?_entryOf_unused (g : Group) (hle : 2 ≤ j) (hlt : j < 40) :
    (entryOf g)[j]? = some 0 := by
  have hfront : (padded maskOffset [maximumProcessors, g.count]).length = 40 :=
    length_padded (by decide : 2 ≤ maskOffset)
  rw [entryOf, List.getElem?_append_left (by omega)]
  exact getElem?_padded hle hlt

theorem getElem?_headerOf_unused (count : Nat) (hle : 12 ≤ k) (hlt : k < 32) :
    (headerOf count)[k]? = some 0 :=
  getElem?_padded (by rwa [length_numbersOf]) hlt

theorem getElem?_groupRecord_unused (hk : k < (groupRecord groups).length)
    (hunused : ¬ Used groups.length k) : (groupRecord groups)[k]? = some 0 := by
  have hlength : (groupRecord groups).length = 32 + 48 * groups.length := length_groupRecord groups
  have hheader : (headerOf groups.length).length = 32 := length_headerOf _
  obtain ⟨hnumbers, hentries⟩ := not_or.mp hunused
  rcases Nat.lt_or_ge k 32 with hfront | hbehind
  · rw [groupRecord, List.getElem?_append_left (by omega)]
    exact getElem?_headerOf_unused _ (Nat.le_of_not_lt hnumbers) hfront
  · -- the entry that the byte is in, and its place there
    obtain ⟨i, hi⟩ : ∃ i, i = (k - 32) / 48 := ⟨_, rfl⟩
    obtain ⟨j, hj⟩ : ∃ j, j = (k - 32) % 48 := ⟨_, rfl⟩
    obtain rfl : k = 32 + 48 * i + j := by omega
    have hin : i < groups.length := by omega
    have hsilent : 2 ≤ j ∧ j < 40 :=
      Decidable.byContradiction fun hsays => hentries ⟨i, hin, by omega⟩
    rw [getElem?_groupRecord_entry _ _ (by omega), List.getElem?_eq_getElem hin]
    exact getElem?_entryOf_unused _ hsilent.1 hsilent.2

theorem groupRecord_laidOut (hlen : groups.length < groupLimit) :
    LaidOut groups (groupRecord groups) where
  length_eq := length_groupRecord groups
  relationship := by
    obtain ⟨rest, hrecord⟩ := groupRecord_eq_append groups
    rw [hrecord]
    exact standsAt_append [] rfl (by decide)
  size := by
    obtain ⟨rest, hrecord⟩ := groupRecord_eq_append groups
    rw [length_groupRecord, hrecord]
    exact standsAt_append _ (length_bytesOf _ _) (recordSize_lt hlen)
  maximumCount := by
    obtain ⟨rest, hrecord⟩ := groupRecord_eq_append groups
    rw [hrecord, ← List.append_assoc]
    exact standsAt_append _ (by simp only [List.length_append, length_bytesOf]) hlen
  activeCount := by
    obtain ⟨rest, hrecord⟩ := groupRecord_eq_append groups
    rw [hrecord, ← List.append_assoc, ← List.append_assoc]
    exact standsAt_append _ (by simp only [List.length_append, length_bytesOf]) hlen
  entry := by
    intro i g hg
    refine ⟨?_, ?_, g.mask.isLt, fun k hk => ?_⟩
    · rw [← Nat.add_zero (32 + 48 * i), getElem?_groupRecord_entry groups i (by decide), hg]
      rfl
    · rw [getElem?_groupRecord_entry groups i (by decide), hg]
      rfl
    · rw [Nat.add_assoc, getElem?_groupRecord_entry groups i (by omega), hg]
      exact getElem?_entryOf_mask g hk
  unused := fun _ hk hunused => getElem?_groupRecord_unused hk hunused

/-! ## Nothing else -/

/-- The layout leaves nothing open: there is one way only to lay out some groups. -/
theorem LaidOut.unique (ha : LaidOut groups a) (hb : LaidOut groups b) : a = b := by
  have hlength : b.length = a.length := hb.length_eq.trans ha.length_eq.symm
  have hsize : StandsAt b 4 4 a.length := hlength ▸ hb.size
  refine List.ext_getElem? fun k => ?_
  by_cases hused : Used groups.length k
  · rcases hused with hnumber | ⟨i, hi, hsays⟩
    · rcases Nat.lt_or_ge k 4 with h4 | h4
      · exact ha.relationship.getElem?_eq hb.relationship (Nat.zero_le _) h4
      rcases Nat.lt_or_ge k 8 with h8 | h8
      · exact ha.size.getElem?_eq hsize h4 h8
      rcases Nat.lt_or_ge k 10 with h10 | h10
      · exact ha.maximumCount.getElem?_eq hb.maximumCount h8 h10
      · exact ha.activeCount.getElem?_eq hb.activeCount h10 hnumber
    · obtain ⟨hmaximum, hcount, hmask⟩ := ha.entry i _ (List.getElem?_eq_getElem hi)
      obtain ⟨hmaximum', hcount', hmask'⟩ := hb.entry i _ (List.getElem?_eq_getElem hi)
      rcases hsays with rfl | rfl | ⟨hle, hlt⟩
      · rw [hmaximum, hmaximum']
      · rw [hcount, hcount']
      · exact hmask.getElem?_eq hmask' hle hlt
  · rcases Nat.lt_or_ge k a.length with hlt | hge
    · rw [ha.unused k hlt hused, hb.unused k (by omega) hused]
    · rw [List.getElem?_eq_none hge, List.getElem?_eq_none (by omega)]

/-- Up to 65535 groups can be written, and the bytes that are written are the ones that are laid
out as the system has it. -/
theorem encode_laid_out (hlen : groups.length ≤ 65535) :
    ∃ bytes, encode groups = .ok bytes ∧ LaidOut groups bytes ∧
      ∀ other, LaidOut groups other → other = bytes := by
  have hlen' : groups.length < groupLimit := Nat.lt_succ_of_le hlen
  have hlaid := groupRecord_laidOut hlen'
  exact ⟨groupRecord groups, encode_of_lt hlen', hlaid, fun _ hother => hother.unique hlaid⟩

/-- The largest record there is takes up more bytes than two bytes of its size field could say. -/
theorem encode_laid_out_largest :
    (List.replicate 65535 (⟨64, 0xffffffffffffffff⟩ : Group)).length ≤ 65535 ∧
      ∃ bytes, encode (List.replicate 65535 ⟨64, 0xffffffffffffffff⟩) = .ok bytes ∧
        LaidOut (List.replicate 65535 ⟨64, 0xffffffffffffffff⟩) bytes ∧
        (∀ other, LaidOut (List.replicate 65535 ⟨64, 0xffffffffffffffff⟩) other → other = bytes) ∧
        bytes.length = 3145712 := by
  have hlen : (List.replicate 65535 (⟨64, 0xffffffffffffffff⟩ : Group)).length ≤ 65535 :=
    Nat.le_of_eq List.length_replicate
  obtain ⟨bytes, hbytes, hlaid, hunique⟩ := encode_laid_out hlen
  refine ⟨hlen, bytes, hbytes, hlaid, hunique, ?_⟩
  rw [hlaid.length_eq, List.length_replicate]

end Topology

end ThreadAffinity
