import ThreadAffinity.Grouped.Editor
import ThreadAffinity.Proofs.Course
import ThreadAffinity.Proofs.Seating

/-!
# What a group editor can do in one move

An editor in order (`Standing`) knows the first processor of its group, and what
waits in it belongs to that group. From such an editor a move can only come to one
of a few ends, and each end says what the system was asked, what the result is and
what becomes of the editor:

- `Applied` lists the ends of applying, `apply_run` says that there are no others;
- `Selected` lists the ends of selecting a processor, `select_run` says that there
  are no others.

Everything about editors is derived from these two lists; nothing else opens the
definitions of the moves. `Tracks` says which processors an editor knows to be
accepted, and each way in which an editor can change keeps it (`Tracks.joined`,
`Tracks.movedTo`).
-/

namespace ThreadAffinity

namespace Grouped

/-- The exchange in which the system grants a binding. -/
def granted (thread : Thread) (affinity : GroupAffinity) : (request : Request) × Reply request :=
  ⟨.bind thread affinity, .ok ()⟩

namespace Editor

open ThreadAffinity.Group

variable {σ : Type} {e : Editor} {p g i : Nat}

/-! ## Editors in order -/

/-- The editor stands on a group or behind the last one, knows the first processor
there, and what waits belongs to this group. -/
structure Standing (e : Editor) : Prop where
  few : e.groups.length < groupNumberLimit
  index_le : e.index ≤ e.groups.length
  start_eq : e.start = startOf e.groups e.index
  group_eq : e.pending.group = if e.pending.mask = 0 then none else some e.index

theorem standing_new {groups : List Group} (thread : Thread)
    (few : groups.length < groupNumberLimit) : Standing (new groups thread) where
  few := few
  index_le := Nat.zero_le _
  start_eq := by simp [new]
  group_eq := by simp [new, Pending.none]

theorem holds_iff (he : Standing e) : e.holds p = true ↔ Owns e.groups e.index p := by
  unfold holds current?
  rw [he.start_eq]
  constructor
  · intro h
    split at h
    · rename_i grp hg
      simp only [Bool.and_eq_true, decide_eq_true_eq] at h
      exact ⟨grp, hg, h.1, by omega⟩
    · cases h
  · rintro ⟨grp, hg, hle, hlt⟩
    simp only [hg, Bool.and_eq_true, decide_eq_true_eq]
    exact ⟨hle, by omega⟩

theorem isEmpty_iff : e.pending.isEmpty = true ↔ e.pending.mask = 0 := by
  simp [Pending.isEmpty]

/-! ## What waits -/

/-- What a binding request would bind to, if anything waits. -/
def due (e : Editor) : List GroupAffinity :=
  if e.pending.mask = 0 then [] else [⟨e.index, e.pending.mask⟩]

/-- The transcript of applying what waits, as far as it is granted. -/
def leaving (e : Editor) : List (Entry interface) :=
  e.due.flatMap fun affinity =>
    [.call (.bind e.thread affinity) (.ok ()),
      .event (.groupApplied e.thread affinity.group affinity.mask)]

def joined (e : Editor) (i : Nat) : Editor :=
  { e with pending := ⟨e.pending.mask ||| Word.bit i, some e.index⟩ }

/-- The editor at another group, where nothing waits yet. -/
def movedTo (e : Editor) (g : Nat) : Editor :=
  { e with index := g, start := startOf e.groups g, pending := Pending.none }

theorem due_of_zero (h : e.pending.mask = 0) : e.due = [] := if_pos h

theorem due_of_ne_zero (h : e.pending.mask ≠ 0) : e.due = [⟨e.index, e.pending.mask⟩] :=
  if_neg h

theorem mem_due {a : GroupAffinity} :
    a ∈ e.due ↔ e.pending.mask ≠ 0 ∧ a = ⟨e.index, e.pending.mask⟩ := by
  by_cases h : e.pending.mask = 0
  · rw [due_of_zero h]
    exact iff_of_false List.not_mem_nil fun hmem => hmem.1 h
  · rw [due_of_ne_zero h, List.mem_singleton]
    exact (and_iff_right h).symm

theorem exchangesOf_leaving (e : Editor) :
    exchangesOf e.leaving = e.due.map (granted e.thread) := by
  by_cases h : e.pending.mask = 0
  · rw [leaving, due_of_zero h]
    rfl
  · rw [leaving, due_of_ne_zero h]
    rfl

theorem affinity?_eq (he : Standing e) : e.pending.affinity? = e.due.head? := by
  unfold Pending.affinity?
  rw [he.group_eq]
  by_cases h : e.pending.mask = 0
  · rw [if_pos h, due_of_zero h]
    rfl
  · rw [if_neg h, due_of_ne_zero h]
    exact if_neg fun hempty => h (isEmpty_iff.mp hempty)

theorem Standing.movedTo (he : Standing e) (hg : g ≤ e.groups.length) :
    Standing (e.movedTo g) where
  few := he.few
  index_le := hg
  start_eq := rfl
  group_eq := by simp [Editor.movedTo, Pending.none]

theorem Standing.joined (he : Standing e) (hi : i < 64) : Standing (e.joined i) where
  few := he.few
  index_le := he.index_le
  start_eq := he.start_eq
  group_eq := by
    have hne : e.pending.mask ||| Word.bit i ≠ 0 := by
      intro h
      have hset := Word.getLsbD_or_bit hi e.pending.mask i
      rw [h] at hset
      simp at hset
    exact (if_neg hne).symm

/-! ## Applying -/

/-- The ends of applying: nothing waits, the system refuses, or it grants. -/
inductive Applied (e : Editor) : List (Entry interface) → Except Error Unit × Editor → Prop
  | nothing (h : e.pending.mask = 0) : Applied e [] (.error .emptySelection, e)
  | refused (h : e.pending.mask ≠ 0) (cause : Refusal) :
      Applied e [.call (.bind e.thread ⟨e.index, e.pending.mask⟩) (.error cause)]
        (.error (.refused .setGroupAffinity cause), e)
  | granted (h : e.pending.mask ≠ 0) : Applied e e.leaving (.ok (), e)

theorem apply_run (he : Standing e) (system : System interface σ) (state : σ) :
    Applied e (e.apply.run system state).entries (e.apply.run system state).value := by
  unfold apply
  rw [affinity?_eq he]
  by_cases h : e.pending.mask = 0
  · rw [due_of_zero h]
    exact .nothing h
  · rw [due_of_ne_zero h]
    simp only [List.head?_cons, Dialogue.run_ask]
    cases (system.answer (.bind e.thread ⟨e.index, e.pending.mask⟩) state).1 with
    | error cause => exact .refused h cause
    | ok granted =>
        have hgranted := Applied.granted h
        rw [leaving, due_of_ne_zero h] at hgranted
        exact hgranted

/-- The run of an application, taken apart. -/
theorem apply_ends (he : Standing e) (system : System interface σ) (state : σ) :
    ∃ entries result kept after,
      e.apply.run system state = ⟨(result, kept), after, entries⟩ ∧
        Applied e entries (result, kept) :=
  ⟨_, _, _, _, rfl, apply_run he system state⟩

/-! ## Walking and collecting -/

/-- A walk ends at the group that owns the processor, or behind the last group when
no group that lies ahead owns it. -/
theorem walk_spec {groups : List Group} {index : Nat} (hindex : index ≤ groups.length)
    (hstart : startOf groups index ≤ p) :
    (∃ g, index ≤ g ∧ Owns groups g p ∧
        walk p index (startOf groups index) (groups.drop index) = ⟨g, startOf groups g, true⟩) ∨
      (total groups ≤ p ∧
        walk p index (startOf groups index) (groups.drop index) =
          ⟨groups.length, total groups, false⟩) := by
  generalize hahead : groups.drop index = ahead
  induction ahead generalizing index with
  | nil =>
      have hlen : groups.length ≤ index := List.drop_eq_nil_iff.mp hahead
      obtain rfl : index = groups.length := Nat.le_antisymm hindex hlen
      rw [startOf_of_length_le (Nat.le_refl _)] at hstart ⊢
      exact Or.inr ⟨hstart, rfl⟩
  | cons grp ahead ih =>
      have hgrp : groups[index]? = some grp := by
        rw [← List.head?_drop, hahead, List.head?_cons]
      have hrest : groups.drop (index + 1) = ahead := by
        rw [← List.tail_drop, hahead, List.tail_cons]
      have hlt : index < groups.length := (List.getElem?_eq_some_iff.mp hgrp).1
      unfold walk
      by_cases hp : p < startOf groups index + grp.count.toNat
      · rw [if_pos hp]
        exact Or.inl ⟨index, Nat.le_refl _, ⟨grp, hgrp, hstart, hp⟩, rfl⟩
      · rw [if_neg hp, ← startOf_succ hgrp]
        have hnext : startOf groups (index + 1) ≤ p := by
          rw [startOf_succ hgrp]
          exact Nat.le_of_not_lt hp
        rcases ih hlt hnext hrest with ⟨g, hle, howns, hwalk⟩ | hbeyond
        · exact Or.inl ⟨g, Nat.le_of_succ_le hle, howns, hwalk⟩
        · exact Or.inr hbeyond

theorem collect_of_seated (he : Standing e) (hp : Seated e.groups e.index p i) :
    e.collect p = (.ok (), e.joined i) := by
  obtain ⟨grp, hg, -, hset, hrank⟩ := hp
  have hi : i < 64 := BitVec.lt_of_getLsbD hset
  have hposition : (Word.positions grp.mask)[p - e.start]? = some i := by
    rw [he.start_eq]
    exact Word.getElem?_positions.mpr ⟨hset, hrank⟩
  have hi' : within? positionLimit i = some i := if_pos (by unfold positionLimit; omega)
  have hlt : e.index < e.groups.length := (List.getElem?_eq_some_iff.mp hg).1
  have hindex : within? groupNumberLimit e.index = some e.index :=
    if_pos (Nat.lt_trans hlt he.few)
  have hadd : e.pending.add e.index i = .ok ⟨e.pending.mask ||| Word.bit i, some e.index⟩ := by
    unfold Pending.add
    rw [he.group_eq]
    by_cases h : e.pending.mask = 0
    · rw [if_pos h]
    · rw [if_neg h]
      exact if_pos rfl
  simp only [collect, current?, hg, Option.bind_eq_bind, Option.bind_some, hposition, hi',
    hindex, hadd, joined]

theorem collect_of_unseated (he : Standing e) (hp : Owns e.groups e.index p)
    (ha : ¬ Addressable e.groups p) : e.collect p = (.error (.notFound p), e) := by
  obtain ⟨grp, hg, hrange⟩ := hp
  have hposition : (Word.positions grp.mask)[p - e.start]? = none := by
    rw [he.start_eq, List.getElem?_eq_none_iff, Word.length_positions]
    by_contra hlt
    exact ha ⟨e.index, grp, hg, hrange, Nat.lt_of_not_le hlt⟩
  simp only [collect, current?, hg, Option.bind_eq_bind, Option.bind_some, hposition,
    Option.bind_none]

/-! ## Selecting -/

/-- The ends of selecting processor `p`.

Without a question: `p` comes too late, or the editor stands on the group of `p`, and
`p` has a seat there or has none. Otherwise what waits has to be applied, and the
system may refuse that. If it does not, the editor goes on to the group of `p`, where
`p` has a seat or has none, or behind the last group. -/
inductive Selected (p : Nat) (e : Editor) :
    List (Entry interface) → Except Error Unit × Editor → Prop
  | late (h : p < e.start) : Selected p e [] (.error (.orderViolation p e.start), e)
  | joined (i : Nat) (h : Seated e.groups e.index p i) : Selected p e [] (.ok (), e.joined i)
  | unseated (h : Owns e.groups e.index p) (ha : ¬ Addressable e.groups p) :
      Selected p e [] (.error (.notFound p), e)
  | refused (hstart : e.start ≤ p) (hout : ¬ Owns e.groups e.index p)
      (h : e.pending.mask ≠ 0) (cause : Refusal) :
      Selected p e [.call (.bind e.thread ⟨e.index, e.pending.mask⟩) (.error cause)]
        (.error (.refused .setGroupAffinity cause), e)
  | moved (g i : Nat) (hg : e.index < g) (h : Seated e.groups g p i) :
      Selected p e (e.leaving ++ [.event (.groupFound p g (startOf e.groups g))])
        (.ok (), (e.movedTo g).joined i)
  | movedUnseated (g : Nat) (hg : e.index < g) (h : Owns e.groups g p)
      (ha : ¬ Addressable e.groups p) :
      Selected p e (e.leaving ++ [.event (.groupFound p g (startOf e.groups g))])
        (.error (.notFound p), e.movedTo g)
  | beyond (h : total e.groups ≤ p) :
      Selected p e e.leaving (.error (.notFound p), e.movedTo e.groups.length)

/-- Once what waited is applied, the search for the group of `p` ends a selection in
one of the last three ways. -/
theorem seek_run (he : Standing e) (hstart : e.start ≤ p) (hout : ¬ Owns e.groups e.index p)
    (system : System interface σ) (state : σ) :
    let sought := ({ e with pending := Pending.none }.seek p).run system state
    Selected p e (e.leaving ++ sought.entries) sought.value := by
  have hstart' : startOf e.groups e.index ≤ p := by rwa [← he.start_eq]
  unfold seek
  simp only [he.start_eq]
  rcases walk_spec he.index_le hstart' with ⟨g, hle, howns, hwalk⟩ | ⟨hbeyond, hwalk⟩
  · have hg : e.index < g := by
      rcases Nat.lt_or_eq_of_le hle with hlt | rfl
      · exact hlt
      · exact absurd howns hout
    have hmoved : Standing (e.movedTo g) := he.movedTo (Nat.le_of_lt howns.lt_length)
    simp only [hwalk, if_true, Dialogue.run_note, Dialogue.run_done]
    by_cases ha : Addressable e.groups p
    · obtain ⟨i, hseat⟩ := howns.exists_seated ha
      have hcollect : (e.movedTo g).collect p = (.ok (), (e.movedTo g).joined i) :=
        collect_of_seated hmoved hseat
      simp only [movedTo] at hcollect
      rw [hcollect]
      exact .moved g i hg hseat
    · have hcollect : (e.movedTo g).collect p = (.error (.notFound p), e.movedTo g) :=
        collect_of_unseated hmoved howns ha
      simp only [movedTo] at hcollect
      rw [hcollect]
      exact .movedUnseated g hg howns ha
  · have hend : e.movedTo e.groups.length =
        { e with index := e.groups.length, start := total e.groups, pending := Pending.none } := by
      rw [movedTo, startOf_of_length_le (Nat.le_refl _)]
    simp only [hwalk, Bool.false_eq_true, if_false, Dialogue.run_done, List.append_nil]
    rw [← hend]
    exact .beyond hbeyond

theorem select_run (he : Standing e) (p : Nat) (system : System interface σ) (state : σ) :
    Selected p e ((e.select p).run system state).entries ((e.select p).run system state).value := by
  unfold select
  by_cases hlate : p < e.start
  · rw [if_pos hlate]
    exact .late hlate
  rw [if_neg hlate]
  by_cases hown : Owns e.groups e.index p
  · rw [if_pos ((holds_iff he).mpr hown), Dialogue.run_done]
    by_cases ha : Addressable e.groups p
    · obtain ⟨i, hseat⟩ := hown.exists_seated ha
      rw [collect_of_seated he hseat]
      exact .joined i hseat
    · rw [collect_of_unseated he hown ha]
      exact .unseated hown ha
  rw [if_neg (fun h => hown ((holds_iff he).mp h))]
  have hstart : e.start ≤ p := Nat.le_of_not_lt hlate
  by_cases hzero : e.pending.mask = 0
  · rw [if_pos (isEmpty_iff.mpr hzero)]
    have hnone : e.pending = Pending.none := by
      have hgroup := he.group_eq
      rw [if_pos hzero] at hgroup
      cases hpending : e.pending
      simp_all [Pending.none]
    have hsought := seek_run he hstart hown system state
    simp only [leaving, due_of_zero hzero, List.flatMap_nil, List.nil_append, ← hnone] at hsought
    exact hsought
  · rw [if_neg (fun h => hzero (isEmpty_iff.mp h)), Dialogue.run_bind]
    obtain ⟨entries, result, kept, after, hrun, happlied⟩ := apply_ends he system state
    rw [hrun]
    cases happlied with
    | nothing h => exact absurd h hzero
    | refused h cause =>
        simp only [Dialogue.run_done, List.append_nil]
        exact .refused hstart hown h cause
    | granted h => exact seek_run he hstart hown system after

theorem select_of_late (hlate : p < e.start) :
    e.select p = .done (.error (.orderViolation p e.start), e) := if_pos hlate

/-- The run of a selection, taken apart. -/
theorem select_ends (he : Standing e) (p : Nat) (system : System interface σ) (state : σ) :
    ∃ entries result kept after,
      (e.select p).run system state = ⟨(result, kept), after, entries⟩ ∧
        Selected p e entries (result, kept) :=
  ⟨_, _, _, _, rfl, select_run he p system state⟩

theorem Applied.editor_eq {entries : List (Entry interface)} {applied : Except Error Unit × Editor}
    (h : Applied e entries applied) : applied.2 = e := by
  cases h with
  | nothing h => rfl
  | refused h cause => rfl
  | granted h => rfl

theorem Selected.groups_eq {entries : List (Entry interface)}
    {selected : Except Error Unit × Editor} (h : Selected p e entries selected) :
    selected.2.groups = e.groups := by
  cases h <;> rfl

theorem Selected.standing {entries : List (Entry interface)}
    {selected : Except Error Unit × Editor} (h : Selected p e entries selected) (he : Standing e) :
    Standing selected.2 := by
  cases h with
  | late hlate => exact he
  | joined i hseat => exact he.joined hseat.lt_64
  | unseated hown ha => exact he
  | refused hstart hout hne cause => exact he
  | moved g i hg hseat => exact (he.movedTo (Nat.le_of_lt hseat.owns.lt_length)).joined hseat.lt_64
  | movedUnseated g hg hown ha => exact he.movedTo (Nat.le_of_lt hown.lt_length)
  | beyond hbeyond => exact he.movedTo (Nat.le_refl _)

/-- What is accepted has a seat. -/
theorem Selected.addressable {entries : List (Entry interface)}
    {selected : Except Error Unit × Editor} (h : Selected p e entries selected)
    (hok : selected.1 = .ok ()) : Addressable e.groups p := by
  cases h with
  | joined i hseat => exact hseat.addressable
  | moved g i hg hseat => exact hseat.addressable
  | _ => cases hok

/-- A new editor has nothing to apply, so it accepts what has a seat right away. -/
theorem select_new_run {groups : List Group} (few : groups.length < groupNumberLimit)
    (thread : Thread) (ha : Addressable groups p) (system : System interface σ) (state : σ) :
    ((select p (new groups thread)).run system state).value.1 = .ok () := by
  obtain ⟨entries, result, kept, after, hrun, hselected⟩ :=
    select_ends (standing_new thread few) p system state
  rw [hrun]
  cases hselected with
  | late hlate => exact absurd hlate (Nat.not_lt_zero p)
  | joined i hseat => rfl
  | unseated hown hseat => exact absurd ha hseat
  | refused hstart hout hne cause => exact absurd rfl hne
  | moved g i hg hseat => rfl
  | movedUnseated g hg hown hseat => exact absurd ha hseat
  | beyond hbeyond => exact absurd ha.lt_total (Nat.not_lt.mpr hbeyond)

/-! ## What was accepted -/

/-- The editor knows that exactly the processors of `S` were accepted: those of its own
group wait, and none belongs to a group that still lies ahead. -/
structure Tracks (e : Editor) (S : Nat → Prop) : Prop where
  standing : Standing e
  pending : Holds e.groups e.index S e.pending.mask
  seated : ∀ p, S p → ∃ g i, g ≤ e.index ∧ Seated e.groups g p i

variable {S T : Nat → Prop}

theorem tracks_new {groups : List Group} (thread : Thread)
    (few : groups.length < groupNumberLimit) (hS : ∀ p, ¬ S p) : Tracks (new groups thread) S where
  standing := standing_new thread few
  pending := holds_zero fun p hp => absurd hp (hS p)
  seated := fun p hp => absurd hp (hS p)

theorem Tracks.congr (he : Tracks e S) (hST : ∀ p, S p ↔ T p) : Tracks e T where
  standing := he.standing
  pending := he.pending.congr fun p _ => hST p
  seated := fun p hp => he.seated p ((hST p).mpr hp)

theorem Tracks.addressable (he : Tracks e S) (hp : S p) : Addressable e.groups p := by
  obtain ⟨g, i, -, hseat⟩ := he.seated p hp
  exact hseat.addressable

theorem Tracks.owner_le (he : Tracks e S) (hp : S p) (hg : Owns e.groups g p) : g ≤ e.index := by
  obtain ⟨h, i, hle, hseat⟩ := he.seated p hp
  obtain rfl := hg.unique hseat.owns
  exact hle

/-- Something waits as soon as one processor of the editor's group was accepted. -/
theorem Tracks.mask_ne_zero (he : Tracks e S) (hp : S p) (hown : Owns e.groups e.index p) :
    e.pending.mask ≠ 0 := by
  obtain ⟨i, hseat⟩ := hown.exists_seated (he.addressable hp)
  exact he.pending.ne_zero hp hseat

/-- Something waits only if a processor of the editor's group was accepted. -/
theorem Tracks.exists_of_mask_ne_zero (he : Tracks e S) (h : e.pending.mask ≠ 0) :
    ∃ p, S p ∧ Owns e.groups e.index p := by
  obtain ⟨p, i, hp, hseat⟩ := he.pending.exists_of_ne_zero h
  exact ⟨p, hp, hseat.owns⟩

theorem Tracks.joined (he : Tracks e S) (hp : Seated e.groups e.index p i) :
    Tracks (e.joined i) (fun q => S q ∨ q = p) where
  standing := he.standing.joined hp.lt_64
  pending := he.pending.insert hp
  seated := by
    rintro q (hq | rfl)
    · exact he.seated q hq
    · exact ⟨e.index, i, Nat.le_refl _, hp⟩

theorem Tracks.movedTo (he : Tracks e S) (hle : e.index ≤ g) (hg : g ≤ e.groups.length)
    (hS : ∀ p, S p → ¬ Owns e.groups g p) : Tracks (e.movedTo g) S where
  standing := he.standing.movedTo hg
  pending := holds_zero hS
  seated := fun p hp => by
    obtain ⟨h, i, hh, hseat⟩ := he.seated p hp
    exact ⟨h, i, Nat.le_trans hh hle, hseat⟩

theorem Tracks.movedAhead (he : Tracks e S) (hlt : e.index < g) (hg : g ≤ e.groups.length) :
    Tracks (e.movedTo g) S :=
  he.movedTo (Nat.le_of_lt hlt) hg fun _ hp hown => by
    have := he.owner_le hp hown
    omega

theorem Tracks.movedToEnd (he : Tracks e S) : Tracks (e.movedTo e.groups.length) S :=
  he.movedTo he.standing.index_le (Nat.le_refl _) fun _ _ hown =>
    absurd hown.lt_length (Nat.lt_irrefl _)

end Editor

end Grouped

end ThreadAffinity
