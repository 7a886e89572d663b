import ThreadAffinity.Bind
import ThreadAffinity.Grouped.Backend
import ThreadAffinity.Grouped.Script
import ThreadAffinity.Proofs.Enumeration
import ThreadAffinity.Proofs.Grouped.Turn
import ThreadAffinity.Proofs.Topology.RoundTrip

/-!
# Binding to a mask, group by group

What binding a thread to a mask asks the system for can be told beforehand from the
groups and the mask alone. This is the `Plan`: one request for each group that has to
take a part, in group order, each for exactly the seats of the selected processors in
that group. Which groups those are depends on the `Stray`, the smallest selected
processor that has no seat: only groups that end before its group take a part.

`CarriedOut` says what a system can make of a plan. It grants one request after the
other, and the first refusal ends it all. `bindThreadTo_carries_out_plan` says that
binding does nothing else.

The invariant is `Progress`. Part of the mask has been accepted, the requests made so
far are a front part of the plan, and all that is left of it concerns the editor's own
group and those ahead. `Progress.leave` is the step that makes a request.
-/

namespace ThreadAffinity

namespace Grouped

open ThreadAffinity.Group Backend

/-! ## Plans -/

/-- The smallest selected processor that no group has a seat for. -/
def Stray (groups : List Group) (S : Nat → Prop) (p : Nat) : Prop :=
  S p ∧ ¬ Addressable groups p ∧ ∀ q, S q → ¬ Addressable groups q → p ≤ q

/-- Group `g` owns a selected processor and, if a group owns the stray one, ends at or
before the first processor of that group. -/
def Takes (groups : List Group) (S : Nat → Prop) (g : Nat) : Prop :=
  (∃ p, S p ∧ Owns groups g p) ∧
    ∀ p h, Stray groups S p → Owns groups h p → startOf groups (g + 1) ≤ startOf groups h

/-- A request for each group that takes a part, in group order, for exactly the seats of
the selected processors there. -/
structure Plan (groups : List Group) (S : Nat → Prop) (plan : List GroupAffinity) : Prop where
  increasing : plan.Pairwise (·.group < ·.group)
  takes_iff : ∀ g, (∃ a ∈ plan, a.group = g) ↔ Takes groups S g
  holds : ∀ a ∈ plan, Holds groups a.group S a.mask

/-- What can come of a plan: what the system was asked and replied, and the result. -/
inductive CarriedOut (groups : List Group) (S : Nat → Prop) (thread : Thread)
    (plan : List GroupAffinity) :
    List ((request : Request) × Reply request) → Except Error Unit → Prop
  | refused (made left : List GroupAffinity) (bad : GroupAffinity) (cause : Refusal)
      (h : plan = made ++ bad :: left) :
      CarriedOut groups S thread plan
        (made.map (granted thread) ++ [⟨.bind thread bad, .error cause⟩])
        (.error (.refused .setGroupAffinity cause))
  | stopped (p : Nat) (h : Stray groups S p) :
      CarriedOut groups S thread plan (plan.map (granted thread)) (.error (.notFound p))
  | finished (h : ∀ p, ¬ Stray groups S p) :
      CarriedOut groups S thread plan (plan.map (granted thread)) (.ok ())

variable {groups : List Group} {S : Nat → Prop} {plan : List GroupAffinity} {g p : Nat}

theorem Takes.lt_length (h : Takes groups S g) : g < groups.length := by
  obtain ⟨⟨p, -, hown⟩, -⟩ := h
  exact hown.lt_length

/-- A group that takes a part stands before the group of the stray processor. -/
theorem Takes.lt_owner {h : Nat} (htakes : Takes groups S g) (hstray : Stray groups S p)
    (hown : Owns groups h p) : g < h := by
  obtain ⟨⟨q, -, hq⟩, hend⟩ := htakes
  by_contra hle
  have hstart : startOf groups h ≤ startOf groups g := startOf_mono (Nat.le_of_not_lt hle)
  have := hend p h hstray hown
  have := hq.start_le
  have := hq.lt_startOf_succ
  omega

theorem takes_of_lt_owner (hown : ∃ p, S p ∧ Owns groups g p)
    (hlt : ∀ p h, Stray groups S p → Owns groups h p → g < h) : Takes groups S g :=
  ⟨hown, fun p h hstray hp => startOf_mono (hlt p h hstray hp)⟩

/-- With no processor astray, every group that owns a selected processor takes a part. -/
theorem takes_iff_of_addressable (hall : ∀ p, S p → Addressable groups p) :
    Takes groups S g ↔ ∃ p, S p ∧ Owns groups g p :=
  ⟨And.left, fun hown => takes_of_lt_owner hown fun p _ hstray _ =>
    absurd (hall p hstray.1) hstray.2.1⟩

open Classical in
theorem exists_plan (groups : List Group) (S : Nat → Prop) : ∃ plan, Plan groups S plan := by
  choose mask hmask using fun g => exists_holds groups g S
  refine ⟨((List.range groups.length).filter fun g => decide (Takes groups S g)).map
    fun g => ⟨g, mask g⟩, ?_, fun g => ⟨?_, fun htakes => ?_⟩, ?_⟩
  · rw [List.pairwise_map]
    exact List.pairwise_lt_range.filter _
  · rintro ⟨a, ha, rfl⟩
    obtain ⟨g, hg, rfl⟩ := List.mem_map.mp ha
    exact of_decide_eq_true (List.mem_filter.mp hg).2
  · have hg : g ∈ (List.range groups.length).filter fun g => decide (Takes groups S g) :=
      List.mem_filter.mpr ⟨List.mem_range.mpr htakes.lt_length, decide_eq_true htakes⟩
    exact ⟨⟨g, mask g⟩, List.mem_map_of_mem hg, rfl⟩
  · intro a ha
    obtain ⟨g, -, rfl⟩ := List.mem_map.mp ha
    exact hmask g

/-! ## The invariant -/

/-- The editor has accepted `front` and is still to be given `todo`, in increasing order;
together they are the selection. The requests made so far are a front part of the plan and
concern the groups behind the editor; all others concern its own group or one ahead. -/
structure Progress (S : Nat → Prop) (plan : List GroupAffinity) (e : Editor)
    (front todo : List Nat) (made left : List GroupAffinity) : Prop where
  plan_eq : plan = made ++ left
  tracks : e.Tracks (· ∈ front)
  selected : ∀ q, S q ↔ q ∈ front ∨ q ∈ todo
  increasing : (front ++ todo).Pairwise (· < ·)
  start_le : ∀ q ∈ todo, startOf e.groups e.index ≤ q
  behind : ∀ a ∈ made, a.group < e.index
  ahead : ∀ a ∈ left, e.index ≤ a.group

variable {e : Editor} {front todo : List Nat} {made left : List GroupAffinity} {i : Nat}

theorem progress_new (thread : Thread) (few : groups.length < groupNumberLimit)
    (hS : ∀ q, S q ↔ q ∈ todo) (htodo : todo.Pairwise (· < ·)) :
    Progress S plan (Editor.new groups thread) [] todo [] plan where
  plan_eq := rfl
  tracks := Editor.tracks_new thread few fun _ => List.not_mem_nil
  selected := fun q => by simp [hS q]
  increasing := htodo
  start_le := fun q _ => by simp [Editor.new]
  behind := fun a ha => absurd ha List.not_mem_nil
  ahead := fun a _ => Nat.zero_le _

/-- Everything selected that has no seat is still to come. -/
theorem Progress.mem_todo (h : Progress S plan e front todo made left) (hp : S p)
    (ha : ¬ Addressable e.groups p) : p ∈ todo :=
  ((h.selected p).mp hp).resolve_left fun hfront => ha (h.tracks.addressable hfront)

theorem Progress.le_of_mem (h : Progress S plan e front (p :: todo) made left) {q : Nat}
    (hq : q ∈ p :: todo) : p ≤ q := by
  have hrest := (List.pairwise_append.mp h.increasing).2.1
  rcases List.mem_cons.mp hq with rfl | hq
  · exact Nat.le_refl q
  · exact Nat.le_of_lt (List.rel_of_pairwise_cons hrest hq)

theorem Progress.stray (h : Progress S plan e front (p :: todo) made left)
    (ha : ¬ Addressable e.groups p) : Stray e.groups S p :=
  ⟨(h.selected p).mpr (Or.inr List.mem_cons_self), ha,
    fun _ hq hqa => h.le_of_mem (h.mem_todo hq hqa)⟩

/-- A processor of the editor's own group joins what waits. -/
theorem Progress.joined (h : Progress S plan e front (p :: todo) made left)
    (hp : Seated e.groups e.index p i) :
    Progress S plan (e.joined i) (front ++ [p]) todo made left where
  plan_eq := h.plan_eq
  tracks := (h.tracks.joined hp).congr fun q => by simp
  selected := fun q => by
    rw [h.selected q, List.mem_cons, List.mem_append, List.mem_singleton, or_assoc]
  increasing := by
    rw [List.append_assoc, List.singleton_append]
    exact h.increasing
  start_le := fun q hq => h.start_le q (List.mem_cons_of_mem p hq)
  behind := h.behind
  ahead := h.ahead

theorem Progress.mem_plan (h : Progress S plan e front todo made left) {a : GroupAffinity}
    (ha : a ∈ left) : a ∈ plan := by
  rw [h.plan_eq]
  exact List.mem_append_right made ha

/-- The plan ends here if no group from the editor's own on takes a part. -/
theorem Progress.left_eq_nil (h : Progress S plan e front todo made left)
    (hplan : Plan e.groups S plan) (hend : ∀ g, Takes e.groups S g → g < e.index) : left = [] := by
  refine List.eq_nil_iff_forall_not_mem.mpr fun a ha => ?_
  have := hend a.group ((hplan.takes_iff a.group).mp ⟨a, h.mem_plan ha, rfl⟩)
  have := h.ahead a ha
  omega

/-! ## Leaving a group -/

/-- The editor may go on to group `g`: nothing that is still to come and no stray
processor lies before it. -/
structure Leaves (S : Nat → Prop) (e : Editor) (todo : List Nat) (g : Nat) : Prop where
  index_le : e.index ≤ g
  index_lt : e.pending.mask ≠ 0 → e.index < g
  le_length : g ≤ e.groups.length
  start_le : ∀ q ∈ todo, startOf e.groups g ≤ q
  le_owner : ∀ q k, Stray e.groups S q → Owns e.groups k q → g ≤ k

theorem Progress.leaves_to_owner (h : Progress S plan e front (p :: todo) made left)
    (hg : e.index < g) (hp : Owns e.groups g p) : Leaves S e (p :: todo) g where
  index_le := Nat.le_of_lt hg
  index_lt := fun _ => hg
  le_length := Nat.le_of_lt hp.lt_length
  start_le := fun _ hq => Nat.le_trans hp.start_le (h.le_of_mem hq)
  le_owner := fun _ _ hq hown => hp.le_of_le hown (h.le_of_mem (h.mem_todo hq.1 hq.2.1))

theorem Progress.leaves_to_end (h : Progress S plan e front todo made left)
    (htodo : ∀ q ∈ todo, total e.groups ≤ q) : Leaves S e todo e.groups.length where
  index_le := h.tracks.standing.index_le
  index_lt := fun hne => by
    obtain ⟨q, -, hown⟩ := h.tracks.exists_of_mask_ne_zero hne
    exact hown.lt_length
  le_length := Nat.le_refl _
  start_le := fun q hq => Nat.le_trans (startOf_le_total _ _) (htodo q hq)
  le_owner := fun q k hq hown => by
    have := htodo q (h.mem_todo hq.1 hq.2.1)
    have := hown.lt_total
    omega

/-- All that was selected before the group that the editor goes on to is accepted. -/
theorem Progress.mem_front (h : Progress S plan e front todo made left)
    (hg : Leaves S e todo g) {q k : Nat} (hq : S q) (hown : Owns e.groups k q) (hk : k < g) :
    q ∈ front := by
  refine ((h.selected q).mp hq).resolve_right fun hmem => ?_
  have := hg.start_le q hmem
  have := hown.lt_startOf hk
  omega

/-- Of the groups before the one that the editor goes on to, at most the editor's own can
still be asked for, and only if something waits there. -/
theorem Progress.group_eq (h : Progress S plan e front todo made left)
    (hplan : Plan e.groups S plan) (hg : Leaves S e todo g) {a : GroupAffinity} (ha : a ∈ left)
    (hag : a.group < g) : a.group = e.index ∧ e.pending.mask ≠ 0 := by
  obtain ⟨⟨q, hq, hown⟩, -⟩ := (hplan.takes_iff a.group).mp ⟨a, h.mem_plan ha, rfl⟩
  have hfront := h.mem_front hg hq hown hag
  have hindex : a.group = e.index :=
    Nat.le_antisymm (h.tracks.owner_le hfront hown) (h.ahead a ha)
  rw [hindex] at hown
  exact ⟨hindex, h.tracks.mask_ne_zero hfront hown⟩

/-- If anything waits, the plan has a request for it. -/
theorem Progress.due_mem (h : Progress S plan e front todo made left)
    (hplan : Plan e.groups S plan) (hg : Leaves S e todo g) (hne : e.pending.mask ≠ 0) :
    ⟨e.index, e.pending.mask⟩ ∈ left := by
  have hindex := hg.index_lt hne
  obtain ⟨q, hq, hown⟩ := h.tracks.exists_of_mask_ne_zero hne
  have htakes : Takes e.groups S e.index :=
    takes_of_lt_owner ⟨q, (h.selected q).mpr (Or.inl hq), hown⟩ fun r k hr hk =>
      Nat.lt_of_lt_of_le hindex (hg.le_owner r k hr hk)
  obtain ⟨a, ha, hag⟩ := (hplan.takes_iff e.index).mpr htakes
  have hholds := hplan.holds a ha
  rw [hag] at hholds
  have hmask : a.mask = e.pending.mask := hholds.unique <| h.tracks.pending.congr fun r hr =>
    ⟨fun hfront => (h.selected r).mpr (Or.inl hfront), fun hS => h.mem_front hg hS hr hindex⟩
  rw [← hag, ← hmask]
  rw [h.plan_eq] at ha
  refine (List.mem_append.mp ha).resolve_left fun hmade => ?_
  have := h.behind a hmade
  omega

/-- What waits is the next request of the plan. -/
theorem Progress.due (h : Progress S plan e front todo made left)
    (hplan : Plan e.groups S plan) (hg : Leaves S e todo g) :
    ∃ rest, left = e.due ++ rest ∧ ∀ a ∈ rest, g ≤ a.group := by
  by_cases hzero : e.pending.mask = 0
  · rw [Editor.due_of_zero hzero]
    refine ⟨left, rfl, fun a ha => ?_⟩
    by_contra hlt
    exact (h.group_eq hplan hg ha (Nat.lt_of_not_le hlt)).2 hzero
  · rw [Editor.due_of_ne_zero hzero]
    have hsorted : left.Pairwise (·.group < ·.group) := by
      have hincreasing := hplan.increasing
      rw [h.plan_eq] at hincreasing
      exact (List.pairwise_append.mp hincreasing).2.1
    have hdue := h.due_mem hplan hg hzero
    cases left with
    | nil => exact absurd hdue List.not_mem_nil
    | cons b rest =>
        -- the plan goes up, so the request for the editor's own group stands first
        rcases List.mem_cons.mp hdue with rfl | hrest
        · refine ⟨rest, rfl, fun a ha => ?_⟩
          by_contra hlt
          have hmem := List.mem_cons_of_mem (⟨e.index, e.pending.mask⟩ : GroupAffinity) ha
          have hgroup := (h.group_eq hplan hg hmem (Nat.lt_of_not_le hlt)).1
          have : e.index < a.group := List.rel_of_pairwise_cons hsorted ha
          omega
        · have : b.group < e.index := List.rel_of_pairwise_cons hsorted hrest
          have := h.ahead b List.mem_cons_self
          omega

theorem Progress.leave (h : Progress S plan e front todo made left)
    (hplan : Plan e.groups S plan) (hg : Leaves S e todo g) :
    ∃ rest, left = e.due ++ rest ∧
      Progress S plan (e.movedTo g) front todo (made ++ e.due) rest := by
  obtain ⟨rest, hleft, hahead⟩ := h.due hplan hg
  refine ⟨rest, hleft, ?_⟩
  constructor
  case plan_eq => rw [h.plan_eq, hleft, List.append_assoc]
  case tracks =>
    refine h.tracks.movedTo hg.index_le hg.le_length fun q hq hown => ?_
    have hle := h.tracks.owner_le hq hown
    obtain rfl := Nat.le_antisymm hle hg.index_le
    exact absurd (hg.index_lt (h.tracks.mask_ne_zero hq hown)) (Nat.lt_irrefl _)
  case selected => exact h.selected
  case increasing => exact h.increasing
  case start_le => exact hg.start_le
  case behind =>
    intro a ha
    rcases List.mem_append.mp ha with hmade | hdue
    · exact Nat.lt_of_lt_of_le (h.behind a hmade) hg.index_le
    · by_cases hzero : e.pending.mask = 0
      · rw [Editor.due_of_zero hzero] at hdue
        exact absurd hdue List.not_mem_nil
      · rw [Editor.due_of_ne_zero hzero] at hdue
        obtain rfl := List.mem_singleton.mp hdue
        exact hg.index_lt hzero
  case ahead => exact hahead

/-! ## Carrying out a plan -/

/-- A processor without a seat ends the plan here if no group from the editor's own on
takes a part. -/
theorem Progress.stopped (h : Progress S plan e front (p :: todo) made left)
    (hplan : Plan e.groups S plan) (ha : ¬ Addressable e.groups p)
    (hend : ∀ g, Takes e.groups S g → g < e.index) (thread : Thread) :
    CarriedOut e.groups S thread plan (made.map (granted thread)) (.error (.notFound p)) := by
  have hmade : plan = made := by rw [h.plan_eq, h.left_eq_nil hplan hend, List.append_nil]
  rw [← hmade]
  exact .stopped p (h.stray ha)

/-- A refusal while the editor leaves its group ends the plan with the request for what
waited there. -/
theorem Progress.refused (h : Progress S plan e front todo made left)
    (hplan : Plan e.groups S plan) (hg : Leaves S e todo g) (hne : e.pending.mask ≠ 0)
    (thread : Thread) (cause : Refusal) :
    CarriedOut e.groups S thread plan
      (made.map (granted thread) ++ [⟨.bind thread ⟨e.index, e.pending.mask⟩, .error cause⟩])
      (.error (.refused .setGroupAffinity cause)) := by
  obtain ⟨rest, hleft, -⟩ := h.due hplan hg
  rw [Editor.due_of_ne_zero hne] at hleft
  exact .refused made rest _ cause (by rw [h.plan_eq, hleft, List.singleton_append])

/-- When nothing is left to come, granting what waits is the end of the plan. -/
theorem Progress.finished (h : Progress S plan e front [] made left) (hplan : Plan e.groups S plan)
    (thread : Thread) :
    CarriedOut e.groups S thread plan ((made ++ e.due).map (granted thread)) (.ok ()) := by
  have hg := h.leaves_to_end fun q hq => absurd hq List.not_mem_nil
  obtain ⟨rest, hleft, hprogress⟩ := h.leave hplan hg
  have hrest := hprogress.left_eq_nil hplan fun k hk => hk.lt_length
  have hmade : plan = made ++ e.due := by rw [hprogress.plan_eq, hrest, List.append_nil]
  rw [← hmade]
  exact .finished fun p hp => absurd (h.mem_todo hp.1 hp.2.1) List.not_mem_nil

/-- A group for the editor to leave for, when it has not got the processor itself. -/
theorem Progress.exists_leaves (h : Progress S plan e front (p :: todo) made left)
    (hp : ¬ Owns e.groups e.index p) : ∃ g, Leaves S e (p :: todo) g := by
  rcases Nat.lt_or_ge p (total e.groups) with hlt | hge
  · obtain ⟨g, hown⟩ := exists_owns hlt
    refine ⟨g, h.leaves_to_owner (Nat.lt_of_not_le fun hle => hp ?_) hown⟩
    rcases Nat.lt_or_eq_of_le hle with hg | rfl
    · have := hown.lt_startOf hg
      have := h.start_le p List.mem_cons_self
      omega
    · exact hown
  · exact ⟨_, h.leaves_to_end fun q hq => Nat.le_trans hge (h.le_of_mem hq)⟩

/-- From any point on, selecting what is to come and applying it carries out the plan. -/
theorem Progress.carriedOut {σ : Type} (label : String) (groups : List Group)
    (system : System interface σ) (hS : ∃ q, S q) (todo : List Nat) :
    ∀ {e : Editor} {front : List Nat} {made left : List GroupAffinity} (state : σ),
      Progress S plan e front todo made left → Plan e.groups S plan →
      (front ≠ [] → e.pending.mask ≠ 0) →
      CarriedOut e.groups S e.thread plan
        (made.map (granted e.thread) ++
          exchangesOf (((backend label groups).applyAll todo e).run system state).entries)
        (((backend label groups).applyAll todo e).run system state).value.1 := by
  induction todo with
  | nil =>
      intro e front made left state h hplan hwait
      obtain ⟨q, hq⟩ := hS
      have hq : q ∈ front := ((h.selected q).mp hq).resolve_right List.not_mem_nil
      have hne := hwait (List.ne_nil_of_mem hq)
      have hg := h.leaves_to_end (fun q hq => absurd hq List.not_mem_nil)
      obtain ⟨entries, result, kept, after, hrun, happlied⟩ :=
        Editor.apply_ends h.tracks.standing system state
      have hrun : ((backend label groups).applyAll [] e).run system state = _ := hrun
      rw [hrun]
      cases happlied with
      | nothing hzero => exact absurd hzero hne
      | refused _ cause => exact h.refused hplan hg hne e.thread cause
      | granted _ =>
          rw [Editor.exchangesOf_leaving, ← List.map_append]
          exact h.finished hplan e.thread
  | cons p todo ih =>
      intro e front made left state h hplan hwait
      obtain ⟨entries, result, kept, after, hrun, hselected⟩ :=
        Editor.select_ends h.tracks.standing p system state
      have hrun : ((backend label groups).select p e).run system state = _ := hrun
      rw [applyAll_cons, Dialogue.run_bind, hrun]
      cases hselected with
      | late hlate =>
          have := h.start_le p List.mem_cons_self
          rw [← h.tracks.standing.start_eq] at this
          omega
      | joined i hseat =>
          have hjoined := h.joined hseat
          have hmem : p ∈ front ++ [p] := List.mem_append_right _ (List.mem_singleton.mpr rfl)
          exact ih after hjoined hplan fun _ => hjoined.tracks.mask_ne_zero hmem hseat.owns
      | unseated hown ha =>
          have hend : ∀ g, Takes e.groups S g → g < e.index := fun g hg =>
            hg.lt_owner (h.stray ha) hown
          have hstopped := h.stopped hplan ha hend e.thread
          rw [← List.append_nil (made.map _)] at hstopped
          exact hstopped
      | refused hstart hout hne cause =>
          obtain ⟨g, hg⟩ := h.exists_leaves hout
          exact h.refused hplan hg hne e.thread cause
      | moved g i hg hseat =>
          obtain ⟨rest, -, hprogress⟩ := h.leave hplan (h.leaves_to_owner hg hseat.owns)
          have hjoined := hprogress.joined hseat
          have hmem : p ∈ front ++ [p] := List.mem_append_right _ (List.mem_singleton.mpr rfl)
          have hrest := ih after hjoined hplan fun _ => hjoined.tracks.mask_ne_zero hmem hseat.owns
          rw [List.map_append, List.append_assoc] at hrest
          simp only [exchangesOf_append, exchangesOf_event, exchangesOf_nil, List.append_nil,
            Editor.exchangesOf_leaving]
          exact hrest
      | movedUnseated g hg hown ha =>
          obtain ⟨rest, -, hprogress⟩ := h.leave hplan (h.leaves_to_owner hg hown)
          have hend : ∀ k, Takes e.groups S k → k < g := fun k hk =>
            hk.lt_owner (h.stray ha) hown
          have hstopped := hprogress.stopped hplan ha hend e.thread
          rw [List.map_append, ← Editor.exchangesOf_leaving] at hstopped
          simp only [Dialogue.run_done, List.append_nil, exchangesOf_append, exchangesOf_event,
            exchangesOf_nil]
          exact hstopped
      | beyond hbeyond =>
          have hg := h.leaves_to_end fun q hq => Nat.le_trans hbeyond (h.le_of_mem hq)
          obtain ⟨rest, -, hprogress⟩ := h.leave hplan hg
          have ha : ¬ Addressable e.groups p := fun ha => Nat.not_lt.mpr hbeyond ha.lt_total
          have hstopped := hprogress.stopped hplan ha (fun k hk => hk.lt_length) e.thread
          rw [List.map_append, ← Editor.exchangesOf_leaving] at hstopped
          simp only [Dialogue.run_done, List.append_nil]
          exact hstopped

/-- A group editor is opened and closed without a question. -/
theorem withEditor_run {σ : Type} (label : String) (groups : List Group) (thread : Thread)
    (work : Editor → Dialogue interface (Except Error Unit × Editor)) (system : System interface σ)
    (state : σ) :
    ((backend label groups).withEditor thread work).run system state =
      let worked := (work (Editor.new groups thread)).run system state
      ⟨worked.value.1, worked.state, worked.entries⟩ := by
  have hopened : (backend label groups).withEditor thread work =
      (work (Editor.new groups thread)).bind fun worked => .done worked.1 := rfl
  rw [hopened, Dialogue.run_bind]
  simp only [Dialogue.run_done, List.append_nil]

/-- Binding a thread to a mask that selects anything is carrying out the plan for that
mask, whatever the system replies. -/
theorem bindThreadTo_carries_out_plan {σ : Type} {bytes : List UInt8}
    (haccepted : Topology.decode bytes = .ok groups) (label : String) (thread : Thread)
    {mask : Mask} (hmask : ∃ p, mask.contains p = true) (system : System interface σ)
    (state : σ) :
    let outcome := ((backend label groups).bindThreadTo thread mask).run system state
    ∃ plan, Plan groups (fun p => mask.contains p = true) plan ∧
      CarriedOut groups (fun p => mask.contains p = true) thread plan
        (exchangesOf outcome.entries) outcome.value := by
  obtain ⟨plan, hplan⟩ := exists_plan groups fun p => mask.contains p = true
  refine ⟨plan, hplan, ?_⟩
  have few : groups.length < groupNumberLimit := (Topology.length_of_decode haccepted).2
  have hstart : Progress (fun p => mask.contains p = true) plan (Editor.new groups thread)
      [] mask.members [] plan :=
    progress_new thread few (fun q => Mask.mem_members.symm) (Mask.members_pairwise mask)
  have hrun := Progress.carriedOut label groups system hmask mask.members state hstart hplan
    (fun hne => absurd rfl hne)
  have hempty : ¬ mask.isEmpty = true := by
    rw [Mask.isEmpty_eq_false hmask]
    exact Bool.false_ne_true
  simp only [bindThreadTo, if_neg hempty, withEditor_run]
  exact hrun

/-- The second group counts four processors and has seats for two: processor 4 is the stray
one, and only the first group takes a part. -/
theorem bindThreadTo_carries_out_plan_up_to_stray :
    Topology.decode (Topology.groupRecord [⟨2, 3⟩, ⟨4, 0xa⟩, ⟨1, 1⟩]) =
        .ok [⟨2, 3⟩, ⟨4, 0xa⟩, ⟨1, 1⟩] ∧
      (∃ p, (Mask.ofWord 0x55).contains p = true) ∧
      let outcome := ((backend "scripted" [⟨2, 3⟩, ⟨4, 0xa⟩, ⟨1, 1⟩]).bindThreadTo (.handle 7)
        (Mask.ofWord 0x55)).run scripted ⟨[], .caller, (.ok (), 0), (.ok (), 0), true, []⟩
      ∃ plan, Plan [⟨2, 3⟩, ⟨4, 0xa⟩, ⟨1, 1⟩] (fun p => (Mask.ofWord 0x55).contains p = true) plan ∧
        CarriedOut [⟨2, 3⟩, ⟨4, 0xa⟩, ⟨1, 1⟩] (fun p => (Mask.ofWord 0x55).contains p = true)
          (.handle 7) plan (exchangesOf outcome.entries) outcome.value := by
  have haccepted : Topology.decode (Topology.groupRecord [⟨2, 3⟩, ⟨4, 0xa⟩, ⟨1, 1⟩]) =
      .ok [⟨2, 3⟩, ⟨4, 0xa⟩, ⟨1, 1⟩] := Topology.decode_groupRecord (by decide) (by decide)
  have hmask : ∃ p, (Mask.ofWord 0x55).contains p = true := ⟨0, by decide⟩
  exact ⟨haccepted, hmask, bindThreadTo_carries_out_plan haccepted "scripted" (.handle 7) hmask
    scripted _⟩

end Grouped

end ThreadAffinity
