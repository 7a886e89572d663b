import Mathlib.Algebra.Group.Nat.Defs
import Mathlib.Tactic.SplitIfs
import ThreadAffinity.Proofs.Topology.Grammar

/-!
# Scanning with a cursor

The scan of topology data works on what is left of the data and counts without bounds. A machine
leaves the data in place and moves an offset of 64 bits through it, in a loop that goes on for as
long as another header fits in behind the offset. The loop is written down here turn by turn
(`turn`), with each sum formed where the machine forms it and nothing said about an end. How sums
are formed is left open (`Arithmetic`).

A turn that goes on takes the offset forward by a header at least and not beyond the data, whatever
size the record there claims (`turn_onward`). So every run ends (`exists_runs`), and eight bytes of
data pay for each of its turns (`Runs.room`). What it comes to is what the data is read as
(`Runs.result_eq`). Sums may be checked, too: as the offset stays within the data, none of them is
too large for 64 bits unless the data is.
-/

namespace ThreadAffinity

namespace Topology

open LittleEndian

/-! ## The loop -/

/-- How the sum of an offset and a size is formed. -/
inductive Arithmetic where
  /-- Any sum is formed. -/
  | exact
  /-- A sum that does not fit into 64 bits is cut down to the largest number that does. -/
  | saturating
  /-- A sum that does not fit into 64 bits is not formed. -/
  | checked

def Arithmetic.sum? : Arithmetic → (a b : Nat) → Option Nat
  | .exact, a, b => some (a + b)
  | .saturating, a, b => some (min (a + b) (2 ^ 64 - 1))
  | .checked, a, b => if a + b < 2 ^ 64 then some (a + b) else none

/-- The bytes from `start` to `stop`, if they are a stretch of the data. -/
def slice? (bytes : List UInt8) (start stop : Nat) : Option (List UInt8) :=
  if start ≤ stop ∧ stop ≤ bytes.length then some ((bytes.drop start).take (stop - start))
  else none

def numberAt (header : List UInt8) (offset : Nat) : Except Problem Nat :=
  match slice? header offset (offset + 4) with
  | none => .error (.fieldTruncated offset)
  | some field => .ok (valueOf field)

inductive Turn where
  /-- There is no other header, and the loop is over. -/
  | ended
  /-- The loop is left with a result. -/
  | left (result : Except Problem (List Group))
  /-- The loop goes on at another offset. -/
  | onward (next : Nat)

def takeUp (arithmetic : Arithmetic) (bytes : List UInt8) (offset : Nat) (header : List UInt8) :
    Option Turn :=
  match numberAt header 0 with
  | .error problem => some (.left (.error problem))
  | .ok relationship =>
    match numberAt header 4 with
    | .error problem => some (.left (.error problem))
    | .ok size =>
      if size < headerSize then some (.left (.error (.recordSize offset size)))
      else
        (arithmetic.sum? offset size).bind fun stop =>
          match slice? bytes offset stop with
          | none => some (.left (.error (.recordTruncated offset)))
          | some record =>
            if relationship = groupRelationship then some (.left (readGroups record))
            else (arithmetic.sum? offset size).map Turn.onward

/-- One turn of the loop, begun at `offset`. A sum that is not formed leaves it without a result. -/
def turn (arithmetic : Arithmetic) (bytes : List UInt8) (offset : Nat) : Option Turn :=
  (arithmetic.sum? offset headerSize).bind fun stop =>
    match slice? bytes offset stop with
    | none => some .ended
    | some header => takeUp arithmetic bytes offset header

/-- What the loop comes to from an offset on, and in how many turns it takes up a header. -/
inductive Runs (arithmetic : Arithmetic) (bytes : List UInt8) :
    (offset turns : Nat) → Except Problem (List Group) → Prop
  | ended {offset : Nat} (hturn : turn arithmetic bytes offset = some .ended) :
      Runs arithmetic bytes offset 0 (.error .noGroupRecord)
  | left {offset : Nat} {result : Except Problem (List Group)}
      (hturn : turn arithmetic bytes offset = some (.left result)) :
      Runs arithmetic bytes offset 1 result
  | onward {offset next turns : Nat} {result : Except Problem (List Group)}
      (hturn : turn arithmetic bytes offset = some (.onward next))
      (hrest : Runs arithmetic bytes next turns result) :
      Runs arithmetic bytes offset (turns + 1) result

variable {arithmetic : Arithmetic} {bytes header record rest : List UInt8}
  {offset start stop next size n turns : Nat} {result : Except Problem (List Group)}

/-! ## Progress -/

/-- A larger size does not lead to an offset further back. -/
theorem Arithmetic.sum?_mono (hle : n ≤ size) (hstop : arithmetic.sum? offset n = some stop)
    (hnext : arithmetic.sum? offset size = some next) : stop ≤ next := by
  cases arithmetic with
  | exact =>
      simp only [sum?, Option.some.injEq] at hstop hnext
      omega
  | saturating =>
      simp only [sum?, Option.some.injEq] at hstop hnext
      omega
  | checked =>
      simp only [sum?, Option.ite_none_right_eq_some, Option.some.injEq] at hstop hnext
      omega

theorem slice?_eq_some (h : slice? bytes start stop = some record) :
    start ≤ stop ∧ stop ≤ bytes.length ∧ record = (bytes.drop start).take (stop - start) := by
  simp only [slice?, Option.ite_none_right_eq_some, Option.some.injEq] at h
  exact ⟨h.1.1, h.1.2, h.2.symm⟩

theorem le_length_of_numberAt (h : numberAt header offset = .ok n) :
    offset + 4 ≤ header.length := by
  unfold numberAt at h
  split at h
  · cases h
  · rename_i field hfield
    exact (slice?_eq_some hfield).2.1

theorem takeUp_onward (h : takeUp arithmetic bytes offset header = some (.onward next)) :
    ∃ size, numberAt header 4 = .ok size ∧ 8 ≤ size ∧
      arithmetic.sum? offset size = some next ∧ next ≤ bytes.length := by
  unfold takeUp at h
  split at h
  · cases h
  split at h
  · cases h
  rename_i size hsize
  split at h
  · cases h
  rename_i hge
  obtain ⟨stop, hstop, h⟩ := Option.bind_eq_some_iff.mp h
  split at h
  · cases h
  rename_i record hrecord
  split at h
  · cases h
  obtain ⟨reached, hreached, honward⟩ := Option.map_eq_some_iff.mp h
  obtain rfl : reached = next := Turn.onward.inj honward
  -- the end of the record and the next offset are the same sum, formed twice
  obtain rfl : stop = reached := Option.some.inj (hstop.symm.trans hreached)
  exact ⟨size, hsize, Nat.le_of_not_lt hge, hstop, (slice?_eq_some hrecord).2.1⟩

/-- A turn that goes on has passed over a header at least, and over nothing beyond the data. Its
sums need not be exact for that. -/
theorem turn_onward (h : turn arithmetic bytes offset = some (.onward next)) :
    offset + 8 ≤ next ∧ next ≤ bytes.length := by
  obtain ⟨stop, hstop, h⟩ := Option.bind_eq_some_iff.mp h
  split at h
  · cases h
  rename_i header hheader
  obtain ⟨size, hsize, hge, hnext, hwithin⟩ := takeUp_onward h
  -- both numbers of the header could be read, so that it is all there
  have hlength : 8 ≤ header.length := le_length_of_numberAt hsize
  obtain ⟨-, -, rfl⟩ := slice?_eq_some hheader
  have hmono : stop ≤ next := Arithmetic.sum?_mono hge hstop hnext
  rw [List.length_take] at hlength
  exact ⟨by omega, hwithin⟩

/-- A run ends unless a sum is not formed: there is less and less data behind the offset. -/
theorem exists_runs (hformed : ∀ offset ≤ bytes.length, ∃ t, turn arithmetic bytes offset = some t)
    (hle : offset ≤ bytes.length) : ∃ turns result, Runs arithmetic bytes offset turns result := by
  induction hroom : bytes.length - offset using Nat.strongRecOn generalizing offset with
  | ind room ih =>
      obtain ⟨t, hturn⟩ := hformed offset hle
      cases t with
      | ended => exact ⟨0, _, .ended hturn⟩
      | left result => exact ⟨1, result, .left hturn⟩
      | onward next =>
          obtain ⟨hge, hwithin⟩ := turn_onward hturn
          obtain ⟨turns, result, hruns⟩ := ih (bytes.length - next) (by omega) hwithin rfl
          exact ⟨turns + 1, result, .onward hturn hruns⟩

/-- Sums that saturate are always formed. -/
theorem exists_turn_saturating (bytes : List UInt8) (offset : Nat) :
    ∃ t, turn .saturating bytes offset = some t := by
  simp only [turn, takeUp, Arithmetic.sum?, Option.bind_some, Option.map_some]
  repeat' split
  all_goals exact ⟨_, rfl⟩

/-! ## Turns with sums that are exact -/

/-- The turn that begins at `offset`, with `rest` behind it, if all sums are what they should be. -/
def turnAt (offset : Nat) (rest : List UInt8) : Turn :=
  let size := fieldAt rest 4 4
  if rest.length < 8 then .ended
  else if size < 8 then .left (.error (.recordSize offset size))
  else if rest.length < size then .left (.error (.recordTruncated offset))
  else if fieldAt rest 0 4 = groupRelationship then .left (readGroups (rest.take size))
  else .onward (offset + size)

def readFrom (bytes : List UInt8) (offset : Nat) : Except Problem (List Group) :=
  (scan offset (bytes.drop offset)).found.bind readGroups

/-- What a turn leads to, if reading goes on from where it leaves off. -/
def Turn.outcome (bytes : List UInt8) : Turn → Except Problem (List Group)
  | .ended => .error .noGroupRecord
  | .left result => result
  | .onward next => readFrom bytes next

theorem decode_eq_readFrom (bytes : List UInt8) : decode bytes = readFrom bytes 0 := by
  rw [decode, readFrom, List.drop_zero]
  cases (scan 0 bytes).found <;> rfl

theorem readFrom_eq_outcome (bytes : List UInt8) (offset : Nat) :
    readFrom bytes offset = (turnAt offset (bytes.drop offset)).outcome bytes := by
  have hbehind : (bytes.drop offset).drop (fieldAt (bytes.drop offset) 4 4) =
      bytes.drop (offset + fieldAt (bytes.drop offset) 4 4) := List.drop_drop
  rw [readFrom, turnAt]
  generalize bytes.drop offset = rest at hbehind ⊢
  have hcut (size : Nat) : (rest.take size).length < size ↔ rest.length < size := by
    rw [List.length_take]
    omega
  have hrelationship : valueOf (rest.take 4) = fieldAt rest 0 4 := rfl
  have hsize : valueOf ((rest.drop 4).take 4) = fieldAt rest 4 4 := rfl
  rw [scan]
  simp only [hcut, hrelationship, hsize, headerSize]
  split_ifs with hshort hsmall htruncated hrelated
  · rfl
  · rfl
  · rfl
  · rfl
  · rw [hbehind]
    rfl

theorem slice?_offset (hle : offset ≤ bytes.length) (n : Nat) :
    slice? bytes offset (offset + n) =
      if n ≤ (bytes.drop offset).length then some ((bytes.drop offset).take n) else none := by
  have hfits : offset ≤ offset + n ∧ offset + n ≤ bytes.length ↔
      n ≤ (bytes.drop offset).length := by
    rw [List.length_drop]
    omega
  simp only [slice?, hfits, Nat.add_sub_cancel_left]

theorem numberAt_take (hroom : 8 ≤ rest.length) (hfit : offset + 4 ≤ 8) :
    numberAt (rest.take 8) offset = .ok (fieldAt rest offset 4) := by
  obtain ⟨hlength, hfield⟩ := field_take rest offset 4 hroom hfit
  have hfits : 4 ≤ ((rest.take 8).drop offset).length := by
    rw [List.length_drop]
    omega
  rw [numberAt, slice?_offset (by omega), if_pos hfits, ← hfield]
  rfl

/-! ## As far as the data goes -/

section

variable (hsums : arithmetic = .exact ∨ bytes.length < 2 ^ 63) (hle : offset ≤ bytes.length)
include hsums hle

/-- From within data that a machine can hold, numbers of 32 bits do not lead out of 64 bits. -/
theorem Arithmetic.sum?_eq (hn : n < 2 ^ 32) : arithmetic.sum? offset n = some (offset + n) := by
  rcases hsums with rfl | hlength
  · rfl
  cases arithmetic with
  | exact => rfl
  | saturating => exact congrArg some (Nat.min_eq_left (by omega))
  | checked => exact if_pos (by omega)

theorem turn_eq : turn arithmetic bytes offset = some (turnAt offset (bytes.drop offset)) := by
  have hheader : arithmetic.sum? offset headerSize = some (offset + 8) :=
    Arithmetic.sum?_eq hsums hle (by decide)
  have hsize : arithmetic.sum? offset (fieldAt (bytes.drop offset) 4 4) =
      some (offset + fieldAt (bytes.drop offset) 4 4) :=
    Arithmetic.sum?_eq hsums hle (fieldAt_lt _ 4 4)
  rw [turn, turnAt, hheader, Option.bind_some, slice?_offset hle]
  generalize hrest : bytes.drop offset = rest at hsize ⊢
  rcases Nat.lt_or_ge rest.length 8 with hshort | hroom
  · simp only [if_neg (Nat.not_le.mpr hshort), if_pos hshort]
  simp only [if_pos hroom, if_neg (Nat.not_lt.mpr hroom), takeUp, numberAt_take hroom, hsize,
    Option.bind_some, Option.map_some, slice?_offset hle, hrest, headerSize, Nat.reduceAdd,
    Nat.reduceLeDiff]
  split
  · rfl
  rcases Nat.lt_or_ge rest.length (fieldAt rest 4 4) with hcut | hwhole
  · simp only [if_neg (Nat.not_le.mpr hcut), if_pos hcut]
  · simp only [if_pos hwhole, if_neg (Nat.not_lt.mpr hwhole)]
    split <;> rfl

theorem eq_turnAt {t : Turn} (hturn : turn arithmetic bytes offset = some t) :
    turnAt offset (bytes.drop offset) = t :=
  Option.some.inj ((turn_eq hsums hle).symm.trans hturn)

theorem header_of_turn {t : Turn} (hturn : turn arithmetic bytes offset = some t)
    (hgoes : t ≠ .ended) : offset + 8 ≤ bytes.length := by
  obtain rfl := eq_turnAt hsums hle hturn
  refine Nat.le_of_not_lt fun hshort => hgoes (if_pos ?_)
  rw [List.length_drop]
  omega

/-- Each turn that takes up a header has eight bytes of its own. -/
theorem Runs.room (h : Runs arithmetic bytes offset turns result) :
    offset + 8 * turns ≤ bytes.length := by
  induction h with
  | ended hturn => exact hle
  | left hturn => exact header_of_turn hsums hle hturn nofun
  | onward hturn hrest ih =>
      obtain ⟨hge, hwithin⟩ := turn_onward hturn
      have hroom := ih hwithin
      omega

theorem Runs.result_eq (h : Runs arithmetic bytes offset turns result) :
    result = readFrom bytes offset := by
  induction h with
  | ended hturn =>
      rw [readFrom_eq_outcome, eq_turnAt hsums hle hturn]
      rfl
  | left hturn =>
      rw [readFrom_eq_outcome, eq_turnAt hsums hle hturn]
      rfl
  | onward hturn hrest ih =>
      rw [readFrom_eq_outcome, eq_turnAt hsums hle hturn]
      exact ih (turn_onward hturn).2

end

/-- A turn that goes on takes the offset forward, by a header at least, and leaves it within the
data, whichever way sums are formed. So the loop of a machine ends on all data. With exact sums, and
with any on data of fewer than `2 ^ 63` bytes, it takes up a header at most once for each eight
bytes, and it comes to what the data is read as. Each turn is then the one with exact sums, which
says of checked ones that they are all formed and of the machine's that none of them saturates. -/
theorem offset_loop_ends (bytes : List UInt8) :
    (∀ arithmetic offset next, turn arithmetic bytes offset = some (.onward next) →
        offset + 8 ≤ next ∧ next ≤ bytes.length) ∧
      (∃ turns result, Runs .saturating bytes 0 turns result) ∧
      ∀ arithmetic : Arithmetic, arithmetic = .exact ∨ bytes.length < 2 ^ 63 →
        (∀ offset ≤ bytes.length, turn arithmetic bytes offset = turn .exact bytes offset) ∧
          (∃ turns result, Runs arithmetic bytes 0 turns result) ∧
          ∀ turns result, Runs arithmetic bytes 0 turns result →
            turns ≤ bytes.length / 8 ∧ result = decode bytes := by
  have hstart : 0 ≤ bytes.length := Nat.zero_le _
  refine ⟨fun _ _ _ => turn_onward, ?_, fun arithmetic hsums => ⟨fun offset hle => ?_, ?_,
    fun turns result hruns => ?_⟩⟩
  · exact exists_runs (fun offset _ => exists_turn_saturating bytes offset) hstart
  · rw [turn_eq hsums hle, turn_eq (.inl rfl) hle]
  · exact exists_runs (fun offset hle => ⟨_, turn_eq hsums hle⟩) hstart
  · have hroom := hruns.room hsums hstart
    have hresult := hruns.result_eq hsums hstart
    exact ⟨by omega, hresult.trans (decode_eq_readFrom bytes).symm⟩

/-- An empty record stands in front of one that claims as many bytes as its field can. The two
headers are all there is, and both of them are taken up. -/
theorem offset_loop_ends_at_largest_claim :
    let bytes := bytesOf 4 2 ++ bytesOf 4 8 ++ bytesOf 4 2 ++ bytesOf 4 (2 ^ 32 - 1)
    turn .saturating bytes 0 = some (.onward 8) ∧ (0 + 8 ≤ 8 ∧ 8 ≤ bytes.length) ∧
      bytes.length < 2 ^ 63 ∧ turn .checked bytes 8 = turn .exact bytes 8 ∧
        Runs .checked bytes 0 2 (.error (.recordTruncated 8)) ∧
        2 ≤ bytes.length / 8 ∧ .error (.recordTruncated 8) = decode bytes := by
  intro bytes
  have hturn (arithmetic : Arithmetic) : turn arithmetic bytes 0 = some (.onward 8) := by
    cases arithmetic <;> rfl
  have hclaim : turn .checked bytes 8 = some (.left (.error (.recordTruncated 8))) := rfl
  have hlength : bytes.length < 2 ^ 63 := by decide
  have hruns : Runs .checked bytes 0 2 (.error (.recordTruncated 8)) :=
    .onward (hturn .checked) (.left hclaim)
  have hprogress := (offset_loop_ends bytes).1 .saturating 0 8 (hturn .saturating)
  obtain ⟨hturns, -, hends⟩ := (offset_loop_ends bytes).2.2 .checked (.inr hlength)
  exact ⟨hturn .saturating, hprogress, hlength, hturns 8 hprogress.2, hruns, hends 2 _ hruns⟩

end Topology

end ThreadAffinity
