import Mathlib.Data.Nat.PSub
import ThreadAffinity.Proofs.Grouped.Connection
import ThreadAffinity.Proofs.Grouped.History

/-!
# Counting processors in numbers of fixed width

A group editor is written with numbers that have no bound and with a subtraction that stops at
zero. A machine adds in 32 bits, has no numbers below zero and passes positions and groups on as
numbers of 8 and 16 bits. The operations are therefore written down once more, with each such step
made where the machine makes it (`Bounded.select`). A step that does not work out has no result at
all, also where an editor would report the processor as not found.

On an editor in order every step works out (`Bounded.select_eq`): the groups come from data with
room for 65535 of them and for one byte of processors each. So nothing is lost by counting without
bounds, and a processor that is not found is one that no group has a seat for.
-/

namespace ThreadAffinity

namespace Grouped

open ThreadAffinity.Group

variable {σ : Type} {groups : List Group} {e : Editor} {p q : Nat}

theorem within?_of_lt {limit n : Nat} (h : n < limit) : within? limit n = some n := if_pos h

/-- Applying leaves the editor as it is, so that it makes no difference how one would go on with
another. -/
theorem Editor.apply_bind_congr {α : Type} {k l : Except Error Unit × Editor → Dialogue interface α}
    (h : ∀ result, k (result, e) = l (result, e)) : e.apply.bind k = e.apply.bind l := by
  unfold apply
  split
  · exact h _
  · simp only [Dialogue.bind, Dialogue.ask.injEq, heq_eq_eq, true_and]
    funext reply
    cases reply with
    | error cause => exact h _
    | ok granted => exact congrArg (Dialogue.note _) (h _)

/-! ## The operations, step by step -/

namespace Bounded

/-- The sum of two processor numbers, if it fits into 32 bits. -/
def sum? (a b : Nat) : Option Nat := within? (2 ^ 32) (a + b)

/-- How many processors the groups have, added up from the first group on. -/
def total (groups : List Group) : Option Nat :=
  groups.foldlM (fun sum g => sum? sum g.count.toNat) 0

/-- Whether the current group has the processor. The rank in the group is computed for a processor
that does not come before the group. -/
def holds (p : Nat) (e : Editor) : Option Bool :=
  match e.current? with
  | none => some false
  | some g =>
    if e.start ≤ p then (p.psub e.start).map fun rank => decide (rank < g.count.toNat)
    else some false

/-- The walk over the groups ahead. The index may grow up to `limit`. -/
def walk (limit p : Nat) : (index start : Nat) → List Group → Option Editor.Walk
  | index, start, [] => some ⟨index, start, false⟩
  | index, start, g :: ahead =>
    (sum? start g.count.toNat).bind fun stop =>
      if p < stop then some ⟨index, start, true⟩
      else (within? (limit + 1) (index + 1)).bind fun next => walk limit p next stop ahead

def collect (p : Nat) (e : Editor) : Option (Except Error Unit × Editor) :=
  match e.current? with
  | none => some (.error (.notFound p), e)
  | some g =>
    (p.psub e.start).bind fun rank =>
      match (Word.positions g.mask)[rank]? with
      | none => some (.error (.notFound p), e)
      | some bit =>
        (within? positionLimit bit).bind fun position =>
          (within? groupNumberLimit e.index).bind fun group =>
            match e.pending.add group position with
            | .ok pending => some (.ok (), { e with pending })
            | .error error => some (.error error, e)

def seek (p : Nat) (e : Editor) : Dialogue interface (Option (Except Error Unit × Editor)) :=
  match walk e.groups.length p e.index e.start (e.groups.drop e.index) with
  | none => .done none
  | some reached =>
    let moved := { e with index := reached.index, start := reached.start }
    if reached.found then
      .note (.groupFound p reached.index reached.start) (.done (collect p moved))
    else .done (some (.error (.notFound p), moved))

def select (p : Nat) (e : Editor) : Dialogue interface (Option (Except Error Unit × Editor)) :=
  if p < e.start then .done (some (.error (.orderViolation p e.start), e))
  else
    match holds p e with
    | none => .done none
    | some true => .done (collect p e)
    | some false =>
      if e.pending.isEmpty then seek p e
      else
        e.apply.bind fun
          | (.error error, kept) => .done (some (.error error, kept))
          | (.ok (), kept) => seek p { kept with pending := Pending.none }

/-! ## Every step works out -/

theorem foldlM_sum? (acc : Nat) (hfits : acc + Group.total groups < 2 ^ 32) :
    groups.foldlM (fun sum g => sum? sum g.count.toNat) acc = some (acc + Group.total groups) := by
  induction groups generalizing acc with
  | nil => rfl
  | cons g groups ih =>
      rw [total_cons, ← Nat.add_assoc] at hfits ⊢
      have hsum : sum? acc g.count.toNat = some (acc + g.count.toNat) :=
        within?_of_lt (Nat.lt_of_le_of_lt (Nat.le_add_right _ _) hfits)
      rw [List.foldlM_cons, hsum]
      exact ih _ hfits

theorem total_eq (hfits : Group.total groups < 2 ^ 32) :
    total groups = some (Group.total groups) := by
  have hsum := foldlM_sum? 0 (by rwa [Nat.zero_add])
  rwa [Nat.zero_add] at hsum

theorem holds_eq (p : Nat) (e : Editor) : holds p e = some (e.holds p) := by
  unfold holds Editor.holds
  cases e.current? with
  | none => rfl
  | some g =>
      by_cases hstart : e.start ≤ p
      · simp only [if_pos hstart, Nat.psub_eq_sub hstart, Option.map_some, decide_eq_true hstart,
          Bool.true_and]
      · simp only [if_neg hstart, decide_eq_false hstart, Bool.false_and]

theorem walk_eq {limit index start : Nat} {ahead : List Group}
    (hfits : start + Group.total ahead < 2 ^ 32) (hlimit : index + ahead.length ≤ limit) :
    walk limit p index start ahead = some (Editor.walk p index start ahead) := by
  induction ahead generalizing index start with
  | nil => rfl
  | cons g ahead ih =>
      rw [total_cons, ← Nat.add_assoc] at hfits
      rw [List.length_cons] at hlimit
      have hsum : sum? start g.count.toNat = some (start + g.count.toNat) :=
        within?_of_lt (Nat.lt_of_le_of_lt (Nat.le_add_right _ _) hfits)
      have hnext : within? (limit + 1) (index + 1) = some (index + 1) := within?_of_lt (by omega)
      rw [walk, Editor.walk, hsum, Option.bind_some]
      split
      · rfl
      · rw [hnext, Option.bind_some, ih hfits (by omega)]

theorem collect_eq (hstart : e.start ≤ p) (hindex : e.index < groupNumberLimit) :
    collect p e = some (e.collect p) := by
  unfold collect Editor.collect
  cases e.current? with
  | none => rfl
  | some g =>
      simp only [Nat.psub_eq_sub hstart, Option.bind_some, Option.bind_eq_bind]
      cases hrank : (Word.positions g.mask)[p - e.start]? with
      | none => rfl
      | some bit =>
          -- positions are found in a word of 64 bits
          have hbit : bit < 64 :=
            BitVec.lt_of_getLsbD (Word.mem_positions.mp (List.mem_of_getElem? hrank))
          have hposition : within? positionLimit bit = some bit :=
            within?_of_lt (Nat.lt_trans hbit (by decide))
          simp only [hposition, within?_of_lt hindex, Option.bind_some]
          cases e.pending.add e.index bit with
          | ok pending => rfl
          | error error => rfl

theorem seek_eq (he : e.Standing) (hfits : Group.total e.groups < 2 ^ 32) (hstart : e.start ≤ p)
    (waiting : Pending) :
    seek p { e with pending := waiting } =
      (Editor.seek p { e with pending := waiting }).bind fun made => .done (some made) := by
  have hwalk : walk e.groups.length p e.index e.start (e.groups.drop e.index) =
      some (Editor.walk p e.index e.start (e.groups.drop e.index)) := by
    refine walk_eq ?_ ?_
    · rwa [he.start_eq, startOf_add_total_drop]
    · rw [List.length_drop]
      have := he.index_le
      omega
  simp only [seek, Editor.seek, hwalk]
  rw [he.start_eq] at hstart
  rw [he.start_eq]
  rcases Editor.walk_spec he.index_le hstart with ⟨g, -, howns, hreached⟩ | ⟨-, hreached⟩
  · have hindex : g < groupNumberLimit := Nat.lt_trans howns.lt_length he.few
    simp only [hreached, if_true, Dialogue.bind]
    rw [collect_eq howns.start_le hindex]
  · simp only [hreached, Bool.false_eq_true, if_false, Dialogue.bind]

theorem select_eq (he : e.Standing) (hfits : Group.total e.groups < 2 ^ 32) (p : Nat) :
    select p e = (e.select p).bind fun made => .done (some made) := by
  unfold select Editor.select
  by_cases hlate : p < e.start
  · rw [if_pos hlate, if_pos hlate]
    rfl
  have hstart : e.start ≤ p := Nat.le_of_not_lt hlate
  rw [if_neg hlate, if_neg hlate, holds_eq]
  cases hholds : e.holds p with
  | true =>
      obtain ⟨grp, hgrp, -⟩ := (Editor.holds_iff he).mp hholds
      have hlt : e.index < e.groups.length := (List.getElem?_eq_some_iff.mp hgrp).1
      rw [if_pos rfl]
      exact congrArg Dialogue.done (collect_eq hstart (Nat.lt_trans hlt he.few))
  | false =>
      rw [if_neg Bool.false_ne_true]
      by_cases hempty : e.pending.isEmpty = true
      · simp only [if_pos hempty]
        exact seek_eq he hfits hstart e.pending
      · simp only [if_neg hempty, Dialogue.bind_assoc]
        refine Editor.apply_bind_congr fun result => ?_
        cases result with
        | error error => rfl
        | ok applied => exact seek_eq he hfits hstart Pending.none

end Bounded

/-! ## Not found -/

/-- Some group counts the processor and has no set position for its rank. -/
def Unseated (groups : List Group) (p : Nat) : Prop :=
  ∃ g grp, groups[g]? = some grp ∧
    (startOf groups g ≤ p ∧ p < startOf groups g + grp.count.toNat) ∧
    Word.popCount grp.mask ≤ p - startOf groups g

theorem unseated_of_owns {g : Nat} (hown : Owns groups g p) (ha : ¬ Addressable groups p) :
    Unseated groups p := by
  obtain ⟨grp, hg, hrange⟩ := hown
  exact ⟨g, grp, hg, hrange, Nat.le_of_not_lt fun hlt => ha ⟨g, grp, hg, hrange, hlt⟩⟩

theorem Editor.Selected.of_notFound {entries : List (Entry interface)} {kept : Editor}
    (h : Selected p e entries (.error (.notFound q), kept)) :
    q = p ∧ (total e.groups ≤ p ∨ Unseated e.groups p) := by
  cases h with
  | unseated hown ha => exact ⟨rfl, Or.inr (unseated_of_owns hown ha)⟩
  | movedUnseated g hg hown ha => exact ⟨rfl, Or.inr (unseated_of_owns hown ha)⟩
  | beyond hbeyond => exact ⟨rfl, Or.inl hbeyond⟩

/-! ## Every course -/

/-- Whatever was done with a group editor, no step of counting fails in it: the total fits into
32 bits, and selecting any processor step by step comes to what selecting it comes to. A processor
that is not found is the one that was selected, and no group counts it or its group has no seat
for it. -/
theorem counting_never_fails {bytes : List UInt8}
    (haccepted : Topology.decode bytes = .ok groups) (label : String) (thread : Thread)
    (system : System interface σ) (moves : List Backend.Move) (state : σ) :
    let course := (backend label groups).course system moves (Editor.new groups thread) state
    Bounded.total groups = some (total groups) ∧
      (∀ p, Bounded.select p course.editor =
        (course.editor.select p).bind fun made => .done (some made)) ∧
      ∀ {τ : Type} (other : System interface τ) (now : τ) (p q : Nat),
        ((course.editor.select p).run other now).value.1 = .error (.notFound q) →
          q = p ∧ (total groups ≤ p ∨ Unseated groups p) := by
  intro course
  have few : groups.length < groupNumberLimit := (Topology.length_of_decode haccepted).2
  have htold := told_course few label thread system moves state
  have hgroups : course.editor.groups = groups := htold.groups_eq
  have hstanding : course.editor.Standing := htold.tracks.standing
  have hfits : total groups < 2 ^ 32 := by
    rw [total_eq_sum]
    exact (serves_backend label haccepted).count_lt
  refine ⟨Bounded.total_eq hfits, fun p => Bounded.select_eq hstanding (hgroups ▸ hfits) p,
    fun other now p q hvalue => ?_⟩
  obtain ⟨entries, result, kept, after, hrun, hselected⟩ :=
    Editor.select_ends hstanding p other now
  rw [hrun] at hvalue
  obtain rfl : result = .error (.notFound q) := hvalue
  rw [← hgroups]
  exact hselected.of_notFound

/-- The last group counts three processors and has seats for two of them. The system at first
refuses to let the editor go there. -/
theorem counting_never_fails_after_refusal :
    let groups : List Group := [⟨2, 3⟩, ⟨0, 0⟩, ⟨3, 0xa⟩]
    let moves : List Backend.Move := [.select 1, .select 3, .select 3]
    let script : Script := ⟨[], .caller, (.ok (), 0), (.ok (), 0), true, [.error (.code 5)]⟩
    Topology.decode (Topology.groupRecord groups) = .ok groups ∧
      let course := (backend "scripted" groups).course scripted moves
        (Editor.new groups (.handle 7)) script
      ((course.editor.select 4).run scripted course.state).value.1 = .error (.notFound 4) ∧
        Bounded.total groups = some (total groups) ∧
        (∀ p, Bounded.select p course.editor =
          (course.editor.select p).bind fun made => .done (some made)) ∧
        ∀ {τ : Type} (other : System interface τ) (now : τ) (p q : Nat),
          ((course.editor.select p).run other now).value.1 = .error (.notFound q) →
            q = p ∧ (total groups ≤ p ∨ Unseated groups p) := by
  intro groups moves script
  have haccepted : Topology.decode (Topology.groupRecord groups) = .ok groups :=
    Topology.decode_groupRecord (by decide) (by decide)
  exact ⟨haccepted, by decide,
    counting_never_fails haccepted "scripted" (.handle 7) scripted moves script⟩

end Grouped

end ThreadAffinity
