import ThreadAffinity.Grouped.Backend
import ThreadAffinity.Grouped.Script
import ThreadAffinity.Proofs.Course
import ThreadAffinity.Proofs.Grouped.Turn
import ThreadAffinity.Proofs.Topology.RoundTrip

/-!
# No accepted processor is lost

A caller may use a group editor in any order: select processors of any group, apply
in between, and go on after errors. Selecting may apply what waits behind the
caller's back, a refusal leaves it waiting, and an unknown processor may still move
the editor on. Whatever happens, a course of moves is `Lawful` throughout:

- what the system is asked to bind to is exactly what was accepted in one group so
  far, never nothing, and groups come in order;
- an accepted processor has a seat, and by the time it is accepted all that was
  accepted in earlier groups has been granted by the system.

`Told` is the invariant behind this. It ties the editor to the whole history: what
the editor has waiting is what was accepted in its group, and the groups behind it
are settled. A history is extended one happening at a time (`Told.extend` for those
that accept nothing, `Told.joined` for an acceptance), and the editor changes groups
only when its own group is settled (`Told.movedTo`).
-/

namespace ThreadAffinity

namespace Grouped

open ThreadAffinity.Group Backend

abbrev History := List (Happening interface)

/-! ## The law -/

/-- The system has granted a binding to exactly what was accepted in group `g`. -/
def Delivered (groups : List Group) (thread : Thread) (H : History) (g : Nat) : Prop :=
  ∃ affinity, .asked (.bind thread affinity) (.ok ()) ∈ H ∧ affinity.group = g ∧
    Holds groups g (Accepted H) affinity.mask

/-- What may happen after `H`. -/
def Lawful (groups : List Group) (thread : Thread) (H : History) : Happening interface → Prop
  | .asked request _ => ∃ affinity, request = .bind thread affinity ∧ affinity.mask ≠ 0 ∧
      Holds groups affinity.group (Accepted H) affinity.mask ∧
      ∀ other earlier verdict, .asked (.bind other earlier) verdict ∈ H →
        earlier.group ≤ affinity.group
  | .answered (.select p) (.ok ()) => Addressable groups p ∧
      ∀ h, Owns groups h p → ∀ g < h, (∃ q, Accepted H q ∧ Owns groups g q) →
        Delivered groups thread H g
  | .answered _ _ => True

variable {groups : List Group} {thread : Thread} {H : History} {e : Editor} {p g i : Nat}

theorem accepted_asked {request : Request} {reply : Reply request} :
    Accepted (H ++ [.asked request reply]) = Accepted H := by
  funext q
  simp [accepted_concat]

theorem accepted_rejected {move : Move} {error : Error} :
    Accepted (H ++ [.answered move (.error error)]) = Accepted H := by
  funext q
  simp [accepted_concat]

theorem accepted_applied : Accepted (H ++ [.answered .apply (.ok ())]) = Accepted H := by
  funext q
  simp [accepted_concat]

theorem accepted_select :
    Accepted (H ++ [.answered (.select p) (.ok ())]) = fun q => Accepted H q ∨ q = p := by
  funext q
  simp [accepted_concat, eq_comm]

/-- What was delivered stays so while nothing more is accepted in that group. -/
theorem Delivered.extend {x : Happening interface} (h : Delivered groups thread H g)
    (hx : ∀ q, Owns groups g q → (Accepted H q ↔ Accepted (H ++ [x]) q)) :
    Delivered groups thread (H ++ [x]) g := by
  obtain ⟨affinity, hmem, rfl, hholds⟩ := h
  exact ⟨affinity, List.mem_append_left _ hmem, rfl, hholds.congr hx⟩

/-! ## The invariant -/

/-- The editor of a thread agrees with what happened: it tracks what was accepted, the
groups behind it are delivered as far as anything was accepted there, no group ahead of
it was asked for, and everything so far was lawful. -/
structure Told (groups : List Group) (thread : Thread) (e : Editor) (H : History) : Prop where
  tracks : e.Tracks (Accepted H)
  groups_eq : e.groups = groups
  thread_eq : e.thread = thread
  delivered : ∀ g < e.index, (∃ q, Accepted H q ∧ Owns e.groups g q) →
    Delivered e.groups thread H g
  behind : ∀ other earlier verdict, .asked (.bind other earlier) verdict ∈ H →
    earlier.group ≤ e.index
  lawful : Throughout (Lawful e.groups thread) H

theorem told_new (thread : Thread) (few : groups.length < groupNumberLimit) :
    Told groups thread (Editor.new groups thread) [] where
  tracks := Editor.tracks_new thread few not_accepted_nil
  groups_eq := rfl
  thread_eq := rfl
  delivered := fun _ _ ⟨q, hq, _⟩ => absurd hq (not_accepted_nil q)
  behind := fun _ _ _ h => absurd h List.not_mem_nil
  lawful := throughout_nil _

/-- One more happening that accepts nothing. -/
theorem Told.extend (h : Told groups thread e H) {x : Happening interface}
    (hx : Accepted (H ++ [x]) = Accepted H) (hlaw : Lawful e.groups thread H x)
    (hbehind : ∀ other affinity verdict, x = .asked (.bind other affinity) verdict →
      affinity.group ≤ e.index) : Told groups thread e (H ++ [x]) where
  tracks := by
    rw [hx]
    exact h.tracks
  groups_eq := h.groups_eq
  thread_eq := h.thread_eq
  delivered := fun g hg hq => by
    rw [hx] at hq
    exact (h.delivered g hg hq).extend fun q _ => by rw [hx]
  behind := fun other earlier verdict hmem => by
    rcases List.mem_append.mp hmem with hH | hlast
    · exact h.behind other earlier verdict hH
    · exact hbehind other earlier verdict (List.mem_singleton.mp hlast).symm
  lawful := throughout_concat h.lawful hlaw

/-- The system is asked to bind to what waits. -/
theorem Told.asked (h : Told groups thread e H) (hne : e.pending.mask ≠ 0) (verdict : Verdict) :
    Told groups thread e (H ++ [.asked (.bind e.thread ⟨e.index, e.pending.mask⟩) verdict]) := by
  refine h.extend accepted_asked ?_ ?_
  · rw [h.thread_eq]
    exact ⟨_, rfl, hne, h.tracks.pending, h.behind⟩
  · intro other affinity verdict' heq
    injection heq with hrequest _
    injection hrequest with _ haffinity
    rw [← haffinity]

theorem Told.rejected (h : Told groups thread e H) (move : Move) (error : Error) :
    Told groups thread e (H ++ [.answered move (.error error)]) := by
  refine h.extend accepted_rejected ?_ (fun _ _ _ heq => nomatch heq)
  cases move with
  | select p => trivial
  | apply => trivial

theorem Told.applied (h : Told groups thread e H) :
    Told groups thread e (H ++ [.answered .apply (.ok ())]) :=
  h.extend accepted_applied trivial (fun _ _ _ heq => nomatch heq)

/-- The editor accepts a processor of its own group. -/
theorem Told.joined (h : Told groups thread e H) (hp : Seated e.groups e.index p i) :
    Told groups thread (e.joined i) (H ++ [.answered (.select p) (.ok ())]) where
  tracks := by
    rw [accepted_select]
    exact h.tracks.joined hp
  groups_eq := h.groups_eq
  thread_eq := h.thread_eq
  delivered := fun g hg ⟨q, hq, hown⟩ => by
    rw [accepted_select] at hq
    -- `p` is in the editor's own group, so nothing changes in the groups behind it
    have hne : ∀ q, Owns e.groups g q → q ≠ p := by
      rintro q hown rfl
      exact absurd (hown.unique hp.owns) (Nat.ne_of_lt hg)
    have hold : Accepted H q := hq.resolve_right (hne q hown)
    refine (h.delivered g hg ⟨q, hold, hown⟩).extend fun q hown => ?_
    rw [accepted_select]
    exact ⟨Or.inl, fun hq => hq.resolve_right (hne q hown)⟩
  behind := fun other earlier verdict hmem => by
    rcases List.mem_append.mp hmem with hH | hlast
    · exact h.behind other earlier verdict hH
    · exact nomatch List.mem_singleton.mp hlast
  lawful := by
    refine throughout_concat h.lawful ⟨hp.addressable, fun k hk g hg hq => ?_⟩
    obtain rfl := hk.unique hp.owns
    exact h.delivered g hg hq

/-- The editor goes on to a group where nothing was accepted. Its own group has to be
delivered before, if anything waits. -/
theorem Told.movedTo (h : Told groups thread e H)
    (hdelivered : e.pending.mask ≠ 0 → Delivered e.groups thread H e.index)
    (hle : e.index ≤ g) (htracks : (e.movedTo g).Tracks (Accepted H)) :
    Told groups thread (e.movedTo g) H where
  tracks := htracks
  groups_eq := h.groups_eq
  thread_eq := h.thread_eq
  delivered := fun k hk ⟨q, hq, hown⟩ => by
    rcases Nat.lt_or_eq_of_le (h.tracks.owner_le hq hown) with hlt | rfl
    · exact h.delivered k hlt ⟨q, hq, hown⟩
    · exact hdelivered (h.tracks.mask_ne_zero hq hown)
  behind := fun other earlier verdict hmem =>
    Nat.le_trans (h.behind other earlier verdict hmem) hle
  lawful := h.lawful

/-! ## One move -/

/-- The questions asked while what waits is applied and granted. -/
def grantsOf (e : Editor) : History :=
  e.due.map fun affinity => .asked (.bind e.thread affinity) (.ok ())

theorem happeningsOf_leaving (H : History) (e : Editor) (move : Move)
    (result : Except Error Unit) (events : List (Entry interface))
    (hevents : exchangesOf events = []) :
    H ++ happeningsOf move result (e.leaving ++ events) =
      H ++ grantsOf e ++ [.answered move result] := by
  rw [happeningsOf, exchangesOf_append, hevents, List.append_nil, Editor.exchangesOf_leaving,
    grantsOf, List.map_map, List.append_assoc]
  rfl

/-- Applying what waits settles the editor's group. -/
theorem Told.granted (h : Told groups thread e H) :
    Told groups thread e (H ++ grantsOf e) ∧
      (e.pending.mask ≠ 0 → Delivered e.groups thread (H ++ grantsOf e) e.index) := by
  by_cases hzero : e.pending.mask = 0
  · rw [grantsOf, Editor.due_of_zero hzero, List.map_nil, List.append_nil]
    exact ⟨h, fun hne => absurd hzero hne⟩
  · rw [grantsOf, Editor.due_of_ne_zero hzero, List.map_singleton]
    refine ⟨h.asked hzero (.ok ()), fun _ => ⟨⟨e.index, e.pending.mask⟩, ?_, rfl, ?_⟩⟩
    · rw [h.thread_eq]
      exact List.mem_append_right _ (List.mem_singleton.mpr rfl)
    · rw [accepted_asked]
      exact h.tracks.pending

theorem Told.select {σ : Type} (h : Told groups thread e H) (p : Nat) (system : System interface σ)
    (state : σ) :
    let made := (e.select p).run system state
    Told groups thread made.value.2 (H ++ happeningsOf (.select p) made.value.1 made.entries) := by
  obtain ⟨entries, result, kept, after, hrun, hselected⟩ :=
    Editor.select_ends h.tracks.standing p system state
  obtain ⟨hgranted, hdelivered⟩ := h.granted
  rw [hrun]
  cases hselected with
  | late hlate => exact h.rejected _ _
  | joined i hseat => exact h.joined hseat
  | unseated hown ha => exact h.rejected _ _
  | refused hstart hout hne cause =>
      simpa [happeningsOf] using (h.asked hne (.error cause)).rejected (.select p) _
  | moved g i hg hseat =>
      have htracks := hgranted.tracks.movedAhead hg (Nat.le_of_lt hseat.owns.lt_length)
      have hmoved := hgranted.movedTo hdelivered (Nat.le_of_lt hg) htracks
      have hjoined := hmoved.joined hseat
      rw [← happeningsOf_leaving H e _ _ [.event (.groupFound p g (startOf e.groups g))] rfl]
        at hjoined
      exact hjoined
  | movedUnseated g hg hown ha =>
      have htracks := hgranted.tracks.movedAhead hg (Nat.le_of_lt hown.lt_length)
      have hmoved := hgranted.movedTo hdelivered (Nat.le_of_lt hg) htracks
      have hrejected := hmoved.rejected (.select p) (.notFound p)
      rw [← happeningsOf_leaving H e _ _ [.event (.groupFound p g (startOf e.groups g))] rfl]
        at hrejected
      exact hrejected
  | beyond hbeyond =>
      have hmoved := hgranted.movedTo hdelivered h.tracks.standing.index_le
        hgranted.tracks.movedToEnd
      have hrejected := hmoved.rejected (.select p) (.notFound p)
      rw [← happeningsOf_leaving H e _ _ [] rfl, List.append_nil] at hrejected
      exact hrejected

theorem Told.apply {σ : Type} (h : Told groups thread e H) (system : System interface σ)
    (state : σ) :
    let made := e.apply.run system state
    Told groups thread made.value.2 (H ++ happeningsOf .apply made.value.1 made.entries) := by
  obtain ⟨entries, result, kept, after, hrun, happlied⟩ :=
    Editor.apply_ends h.tracks.standing system state
  rw [hrun]
  cases happlied with
  | nothing hzero => exact h.rejected _ _
  | refused hne cause => simpa [happeningsOf] using (h.asked hne (.error cause)).rejected .apply _
  | granted hne =>
      have happlied := h.granted.1.applied
      rw [← happeningsOf_leaving H e _ _ [] rfl, List.append_nil] at happlied
      exact happlied

theorem Told.make {σ : Type} (h : Told groups thread e H) (label : String) (move : Move)
    (system : System interface σ) (state : σ) :
    let made := ((backend label groups).make move e).run system state
    Told groups thread made.value.2 (H ++ happeningsOf move made.value.1 made.entries) := by
  cases move with
  | select p => exact h.select p system state
  | apply => exact h.apply system state

/-! ## Every course -/

theorem told_course {σ : Type} (few : groups.length < groupNumberLimit) (label : String)
    (thread : Thread) (system : System interface σ) (moves : List Move) (state : σ) :
    let course := (backend label groups).course system moves (Editor.new groups thread) state
    Told groups thread course.editor course.happenings := by
  exact course_invariant (H := []) (fun move _ _ state h => h.make label move system state) moves
    state (told_new thread few)

/-- Whatever a caller does with a group editor and whatever the system replies, the
course is lawful throughout. -/
theorem course_lawful {σ : Type} {bytes : List UInt8}
    (haccepted : Topology.decode bytes = .ok groups) (label : String) (thread : Thread)
    (system : System interface σ) (moves : List Move) (state : σ) :
    Throughout (Lawful groups thread)
      ((backend label groups).course system moves (Editor.new groups thread) state).happenings := by
  have few : groups.length < groupNumberLimit := (Topology.length_of_decode haccepted).2
  have hcourse := told_course few label thread system moves state
  have hlawful := hcourse.lawful
  rw [hcourse.groups_eq] at hlawful
  exact hlawful

/-- The system refuses to let the editor leave the first group, and grants it when the
caller selects the same processor again. -/
theorem course_lawful_after_refusal :
    Topology.decode (Topology.groupRecord [⟨2, 3⟩, ⟨2, 0xa⟩]) = .ok [⟨2, 3⟩, ⟨2, 0xa⟩] ∧
      Throughout (Lawful [⟨2, 3⟩, ⟨2, 0xa⟩] (.handle 7))
        ((backend "scripted" [⟨2, 3⟩, ⟨2, 0xa⟩]).course scripted
          [.select 0, .select 3, .select 3, .apply] (Editor.new [⟨2, 3⟩, ⟨2, 0xa⟩] (.handle 7))
          ⟨[], .caller, (.ok (), 0), (.ok (), 0), true, [.error (.code 5)]⟩).happenings := by
  have haccepted : Topology.decode (Topology.groupRecord [⟨2, 3⟩, ⟨2, 0xa⟩]) =
      .ok [⟨2, 3⟩, ⟨2, 0xa⟩] := Topology.decode_groupRecord (by decide) (by decide)
  exact ⟨haccepted, course_lawful haccepted "scripted" (.handle 7) scripted _ _⟩

end Grouped

end ThreadAffinity
