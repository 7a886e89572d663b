import ThreadAffinity.Proofs.Grouped.History

/-!
# What the fields of a group editor say

A group editor keeps an index, the first processor of its group and a mask of positions
together with the group these are of. The fields are kept apart and nothing in their types
ties them to each other; `Coherent` says how they hang together after every course, also
after one in which moves failed.

It is read off `Told`: what waits is what was accepted in the editor's group, so each
position that waits is the seat of a processor that the group counts, and these are its lowest
set positions. Two consequences are for callers. Positions of two groups never meet in one
mask, so the internal check that guards against it never fails (`make_ne_mixedGroups`), and
applying finds nothing to apply exactly if nothing was accepted in the group.
-/

namespace ThreadAffinity

namespace Grouped

open ThreadAffinity.Group Backend

variable {σ : Type} {groups : List Group} {e : Editor} {H : History}
  {S : Nat → Prop}

/-! ## Fields -/

/-- The editor stands on a group or behind the last one, knows its first processor, and has
positions waiting exactly if it has a group noted for them. That is the editor's own group,
and the positions are among those that its processors sit at, which are the lowest. -/
structure Editor.Coherent (e : Editor) : Prop where
  index_le : e.index ≤ e.groups.length
  start_eq : e.start = startOf e.groups e.index
  mask_eq_zero_iff : e.pending.mask = 0 ↔ e.pending.group = none
  waiting : ∀ g, e.pending.group = some g → g = e.index ∧ g < e.groups.length ∧
    ∃ grp, e.groups[g]? = some grp ∧ ∀ i, e.pending.mask.getLsbD i = true →
      i ∈ (Word.positions grp.mask).take grp.count.toNat

theorem Editor.Tracks.coherent (he : e.Tracks S) : e.Coherent where
  index_le := he.standing.index_le
  start_eq := he.standing.start_eq
  mask_eq_zero_iff := by
    rw [he.standing.group_eq]
    split
    · exact iff_of_true ‹_› rfl
    · exact iff_of_false ‹_› nofun
  waiting := by
    intro g hgroup
    rw [he.standing.group_eq] at hgroup
    split at hgroup
    · cases hgroup
    · rename_i hne
      obtain rfl := Option.some.inj hgroup
      -- something waits, so it has an owner, and the owner is a group
      obtain ⟨p, -, grp, hg, hrange⟩ := he.exists_of_mask_ne_zero hne
      have hlt := (List.getElem?_eq_some_iff.mp hg).1
      refine ⟨rfl, hlt, grp, hg, fun i hset => ?_⟩
      obtain ⟨q, -, hseat⟩ := (he.pending i).mp hset
      exact hseat.mem_take_positions hg

/-! ## Nothing to apply -/

theorem Editor.Tracks.mask_eq_zero_iff (he : e.Tracks S) :
    e.pending.mask = 0 ↔ ∀ p, S p → ¬ Owns e.groups e.index p := by
  constructor
  · intro hzero p hp hown
    exact he.mask_ne_zero hp hown hzero
  · intro hnone
    by_contra hne
    obtain ⟨p, hp, hown⟩ := he.exists_of_mask_ne_zero hne
    exact hnone p hp hown

theorem Editor.apply_emptySelection_iff (he : e.Standing) (system : System interface σ)
    (state : σ) :
    (e.apply.run system state).value.1 = .error .emptySelection ↔ e.pending.mask = 0 := by
  obtain ⟨entries, result, kept, after, hrun, happlied⟩ := apply_ends he system state
  rw [hrun]
  cases happlied with
  | nothing hzero => exact ⟨fun _ => hzero, fun _ => rfl⟩
  | refused hne cause => exact ⟨nofun, fun hzero => absurd hzero hne⟩
  | granted hne => exact ⟨nofun, fun hzero => absurd hzero hne⟩

/-! ## Positions of two groups -/

/-- The check that what waits belongs to the group of a new position never fails. -/
theorem make_ne_mixedGroups (he : e.Standing) (label : String) (move : Move)
    (system : System interface σ) (state : σ) (held added : Nat) :
    (((backend label groups).make move e).run system state).value.1 ≠
      .error (.mixedGroups held added) := by
  cases move with
  | select p =>
      obtain ⟨entries, result, kept, after, hrun, hselected⟩ :=
        Editor.select_ends he p system state
      have hrun : ((backend label groups).make (.select p) e).run system state = _ := hrun
      rw [hrun]
      cases hselected <;> nofun
  | apply =>
      obtain ⟨entries, result, kept, after, hrun, happlied⟩ := Editor.apply_ends he system state
      have hrun : ((backend label groups).make .apply e).run system state = _ := hrun
      rw [hrun]
      cases happlied <;> nofun

/-- No move has come upon positions of two groups. -/
def Unmixed (H : History) : Prop :=
  ∀ move held added, .answered move (.error (.mixedGroups held added)) ∉ H

theorem Unmixed.make (h : Unmixed H) (he : e.Standing) (label : String) (move : Move)
    (system : System interface σ) (state : σ) :
    let made := ((backend label groups).make move e).run system state
    Unmixed (H ++ happeningsOf move made.value.1 made.entries) := by
  intro made other held added hmem
  rcases List.mem_append.mp hmem with hH | hlast
  · exact h other held added hH
  · exact make_ne_mixedGroups he label move system state held added
      (answered_mem_happeningsOf hlast).symm

theorem unmixed_course (few : groups.length < groupNumberLimit) (label : String)
    (thread : Thread) (system : System interface σ) (moves : List Move) (state : σ) :
    Unmixed
      ((backend label groups).course system moves (Editor.new groups thread) state).happenings := by
  have hnew : Told groups thread (Editor.new groups thread) [] ∧ Unmixed [] :=
    ⟨told_new thread few, fun _ _ _ => List.not_mem_nil⟩
  have hmove : ∀ move e H (state : σ), Told groups thread e H ∧ Unmixed H →
      let made := ((backend label groups).make move e).run system state
      let later := H ++ happeningsOf move made.value.1 made.entries
      Told groups thread made.value.2 later ∧ Unmixed later :=
    fun move e H state h => ⟨h.1.make label move system state,
      h.2.make h.1.tracks.standing label move system state⟩
  exact (course_invariant hmove moves state hnew).2

/-! ## Every course -/

/-- Whatever a caller does with a group editor and whatever the system replies, its fields hang
together, no move comes upon positions of two groups, and applying fails for want of a
selection exactly if nothing was accepted in the group that the editor stands on. -/
theorem course_coherent {bytes : List UInt8} (haccepted : Topology.decode bytes = .ok groups)
    (label : String) (thread : Thread) (system : System interface σ) (moves : List Move)
    (state : σ) :
    let course := (backend label groups).course system moves (Editor.new groups thread) state
    course.editor.groups = groups ∧ course.editor.Coherent ∧ Unmixed course.happenings ∧
      ∀ {τ : Type} (other : System interface τ) (now : τ),
        (((backend label groups).apply course.editor).run other now).value.1 =
            .error .emptySelection ↔
          ∀ p, Accepted course.happenings p → ¬ Owns groups course.editor.index p := by
  have few : groups.length < groupNumberLimit := (Topology.length_of_decode haccepted).2
  have htold := told_course few label thread system moves state
  refine ⟨htold.groups_eq, htold.tracks.coherent,
    unmixed_course few label thread system moves state, fun other now => ?_⟩
  have hempty := Editor.apply_emptySelection_iff htold.tracks.standing other now
  rw [htold.tracks.mask_eq_zero_iff, htold.groups_eq] at hempty
  exact hempty

/-- The system refuses to let the editor leave the first group, which it then does at the
second attempt; a processor of the first group comes too late, and one that no group has
makes the editor leave the last group. -/
theorem course_coherent_after_errors :
    let groups : List Group := [⟨2, 3⟩, ⟨0, 0⟩, ⟨3, 0xa⟩]
    let moves : List Move :=
      [.apply, .select 1, .select 3, .select 3, .select 0, .select 4, .select 9]
    let script : Script := ⟨[], .caller, (.ok (), 0), (.ok (), 0), true, [.error (.code 5)]⟩
    Topology.decode (Topology.groupRecord groups) = .ok groups ∧
      let course := (backend "scripted" groups).course scripted moves
        (Editor.new groups (.handle 7)) script
      course.editor.groups = groups ∧ course.editor.Coherent ∧ Unmixed course.happenings ∧
        ∀ {τ : Type} (other : System interface τ) (now : τ),
          (((backend "scripted" groups).apply course.editor).run other now).value.1 =
              .error .emptySelection ↔
            ∀ p, Accepted course.happenings p → ¬ Owns groups course.editor.index p := by
  intro groups moves script
  have haccepted : Topology.decode (Topology.groupRecord groups) = .ok groups :=
    Topology.decode_groupRecord (by decide) (by decide)
  exact ⟨haccepted, course_coherent haccepted "scripted" (.handle 7) scripted moves script⟩

end Grouped

end ThreadAffinity
