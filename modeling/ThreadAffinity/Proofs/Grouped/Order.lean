import Mathlib.Data.Finset.Sort
import ThreadAffinity.Proofs.Agreement

/-!
# Only the order of the groups matters

A group editor wants the groups one after the other. Within a group it can be given the
processors in any order and any number of times: they end up in one mask, and the mask is
handed over only when the editor leaves the group. So the questions that the system is asked,
and what comes of them, depend on nothing but which processors there were.

This is shown with a plan for the selection. `deliver` asks for a plan, and a list in group
order is as good as the plan (`Ahead.applyAll_run`), whatever the system replies. A plan is
made for a selection, not for a list, so two lists of the same processors are as good as each
other.

Where a list is not in group order there is a first descent in it, a processor whose group lies
before that of the processor before it (`exists_descent`). The editor stands on the group of
the one before, and the other comes too late.
-/

namespace ThreadAffinity

namespace Grouped

open ThreadAffinity.Group Backend

variable {σ : Type} {groups : List Group} {S : Nat → Prop} {plan : List GroupAffinity}
  {e : Editor} {front todo processors : List Nat} {g h i p q : Nat}

/-! ## Lists in group order -/

/-- The groups that own the processors never go back along the list. -/
def InGroupOrder (groups : List Group) (processors : List Nat) : Prop :=
  processors.Pairwise fun p q => ∀ g h, Owns groups g p → Owns groups h q → g ≤ h

/-- `p` comes right before `q`, and it is the first time that a processor of an earlier group
comes after one of a later group: of group `h` after group `g`. -/
structure Descent (groups : List Group) (front : List Nat) (p q g h : Nat) : Prop where
  ordered : InGroupOrder groups (front ++ [p])
  before : Owns groups g p
  after : Owns groups h q
  lt : h < g

theorem owns_iff : Owns groups g p ↔
    g < groups.length ∧ startOf groups g ≤ p ∧ p < startOf groups (g + 1) := by
  constructor
  · intro hp
    exact ⟨hp.lt_length, hp.start_le, hp.lt_startOf_succ⟩
  · rintro ⟨hlen, hle, hlt⟩
    have hg : groups[g]? = some groups[g] := List.getElem?_eq_getElem hlen
    rw [startOf_succ hg] at hlt
    exact ⟨groups[g], hg, hle, hlt⟩

instance (groups : List Group) (g p : Nat) : Decidable (Owns groups g p) :=
  decidable_of_iff _ owns_iff.symm

/-- No group behind the last one owns anything, so only finitely many have to be tried. -/
theorem inGroupOrder_iff : InGroupOrder groups processors ↔
    processors.Pairwise fun p q => ∀ g < groups.length, ∀ h < groups.length,
      Owns groups g p → Owns groups h q → g ≤ h := by
  refine List.Pairwise.iff fun p q => ⟨fun hle g _ h _ => hle g h, fun hle g h hp hq => ?_⟩
  exact hle g hp.lt_length h hq.lt_length hp hq

instance (groups : List Group) (processors : List Nat) :
    Decidable (InGroupOrder groups processors) :=
  decidable_of_iff _ inGroupOrder_iff.symm

theorem inGroupOrder_of_increasing (hincreasing : processors.Pairwise (· < ·)) :
    InGroupOrder groups processors :=
  hincreasing.imp fun hlt _ _ hp hq => hp.le_of_le hq (Nat.le_of_lt hlt)

/-- A list goes on in group order as long as each processor belongs to the group of the one
before it or to a later one. -/
theorem InGroupOrder.concat (hordered : InGroupOrder groups (front ++ [p]))
    (hp : Owns groups g p) (hq : Owns groups h q) (hgh : g ≤ h) :
    InGroupOrder groups (front ++ [p] ++ [q]) := by
  refine List.pairwise_append.mpr ⟨hordered, List.pairwise_singleton _ _, fun r hr s hs => ?_⟩
  obtain rfl := List.mem_singleton.mp hs
  intro k l hk hl
  obtain rfl := hl.unique hq
  rcases List.mem_append.mp hr with hr | hr
  · have hle := (List.pairwise_append.mp hordered).2.2 r hr p (List.mem_singleton.mpr rfl)
    exact Nat.le_trans (hle k g hk hp) hgh
  · obtain rfl := List.mem_singleton.mp hr
    obtain rfl := hk.unique hp
    exact hgh

theorem exists_descent (haddressable : ∀ p ∈ processors, Addressable groups p)
    (hordered : ¬ InGroupOrder groups processors) :
    ∃ front p q back g h, processors = front ++ p :: q :: back ∧
      Descent groups front p q g h := by
  induction processors using List.reverseRecOn with
  | nil => exact absurd List.Pairwise.nil hordered
  | append_singleton init q ih =>
      by_cases hinit : InGroupOrder groups init
      · -- the last processor is out of order, so it is not the only one
        rcases List.eq_nil_or_concat init with rfl | ⟨front, p, rfl⟩
        · exact absurd (List.pairwise_singleton _ _) hordered
        · rw [List.concat_eq_append] at *
          obtain ⟨g, i, hp⟩ := addressable_iff.mp (haddressable p (by simp))
          obtain ⟨h, j, hq⟩ := addressable_iff.mp (haddressable q (by simp))
          refine ⟨front, p, q, [], g, h, by simp, hinit, hp.owns, hq.owns, ?_⟩
          by_contra hle
          exact hordered (hinit.concat hp.owns hq.owns (Nat.le_of_not_lt hle))
      · obtain ⟨front, p, r, back, g, h, rfl, hdescent⟩ :=
          ih (fun p hp => haddressable p (List.mem_append_left _ hp)) hinit
        exact ⟨front, p, r, back ++ [q], g, h, by simp, hdescent⟩

/-! ## Going ahead -/

/-- The editor has accepted `front` and is to be given `todo`, together the selection. What is
to come is in group order, has seats, and lies in the editor's group or in one ahead. -/
structure Ahead (S : Nat → Prop) (e : Editor) (front todo : List Nat) : Prop where
  tracks : e.Tracks (· ∈ front)
  selected : ∀ q, S q ↔ q ∈ front ∨ q ∈ todo
  addressable : ∀ q ∈ todo, Addressable e.groups q
  ordered : InGroupOrder e.groups todo
  index_le : ∀ q ∈ todo, ∀ g, Owns e.groups g q → e.index ≤ g

theorem ahead_new (thread : Thread) (few : groups.length < groupNumberLimit)
    (haddressable : ∀ p ∈ processors, Addressable groups p)
    (hordered : InGroupOrder groups processors) (hS : ∀ q, S q ↔ q ∈ processors) :
    Ahead S (Editor.new groups thread) [] processors where
  tracks := Editor.tracks_new thread few fun _ => List.not_mem_nil
  selected := fun q => by simp [hS q]
  addressable := haddressable
  ordered := hordered
  index_le := fun _ _ _ _ => Nat.zero_le _

theorem Ahead.addressable_of_selected (h : Ahead S e front todo) (hp : S p) :
    Addressable e.groups p := by
  rcases (h.selected p).mp hp with hfront | htodo
  · exact h.tracks.addressable hfront
  · exact h.addressable p htodo

theorem Ahead.start_le (h : Ahead S e front todo) (hp : p ∈ todo) : e.start ≤ p := by
  obtain ⟨g, i, hseat⟩ := addressable_iff.mp (h.addressable p hp)
  rw [h.tracks.standing.start_eq]
  exact Nat.le_trans (startOf_mono (h.index_le p hp g hseat.owns)) hseat.owns.start_le

theorem Ahead.joined (h : Ahead S e front (p :: todo)) (hp : Seated e.groups e.index p i) :
    Ahead S (e.joined i) (front ++ [p]) todo where
  tracks := (h.tracks.joined hp).congr fun q => by simp
  selected := fun q => by
    rw [h.selected q, List.mem_cons, List.mem_append, List.mem_singleton, or_assoc]
  addressable := fun q hq => h.addressable q (List.mem_cons_of_mem p hq)
  ordered := (List.pairwise_cons.mp h.ordered).2
  index_le := fun q hq => h.index_le q (List.mem_cons_of_mem p hq)

theorem Ahead.movedTo (h : Ahead S e front todo) (hg : e.index < g) (hlen : g ≤ e.groups.length)
    (htodo : ∀ q ∈ todo, ∀ k, Owns e.groups k q → g ≤ k) : Ahead S (e.movedTo g) front todo where
  tracks := h.tracks.movedAhead hg hlen
  selected := h.selected
  addressable := h.addressable
  ordered := h.ordered
  index_le := htodo

theorem Ahead.le_owner (h : Ahead S e front (p :: todo)) (hp : Owns e.groups g p) :
    ∀ q ∈ p :: todo, ∀ k, Owns e.groups k q → g ≤ k := by
  intro q hq k hk
  rcases List.mem_cons.mp hq with rfl | hq
  · exact Nat.le_of_eq (hp.unique hk)
  · exact List.rel_of_pairwise_cons h.ordered hq g k hp hk

theorem Ahead.moved (h : Ahead S e front (p :: todo)) (hg : e.index < g)
    (hp : Seated e.groups g p i) : Ahead S ((e.movedTo g).joined i) (front ++ [p]) todo :=
  (h.movedTo hg (Nat.le_of_lt hp.owns.lt_length) (h.le_owner hp.owns)).joined hp

/-- What was accepted last in the editor's group waits. -/
theorem Ahead.waits (h : Ahead S e (front ++ [p]) todo) (hp : Owns e.groups e.index p) :
    e.pending.mask ≠ 0 :=
  h.tracks.mask_ne_zero (List.mem_append_right front (List.mem_singleton.mpr rfl)) hp

/-- The ends of selecting what comes next: it joins what waits, or what waits has to be handed
over before, which is refused or lets the editor move to the group ahead. -/
inductive Advanced (p : Nat) (e : Editor) :
    List (Entry interface) → Except Error Unit × Editor → Prop
  | joined (i : Nat) (h : Seated e.groups e.index p i) : Advanced p e [] (.ok (), e.joined i)
  | refused (g : Nat) (hg : e.index < g) (h : Owns e.groups g p) (hne : e.pending.mask ≠ 0)
      (cause : Refusal) :
      Advanced p e [.call (.bind e.thread ⟨e.index, e.pending.mask⟩) (.error cause)]
        (.error (.refused .setGroupAffinity cause), e)
  | moved (g i : Nat) (hg : e.index < g) (h : Seated e.groups g p i) :
      Advanced p e (e.leaving ++ [.event (.groupFound p g (startOf e.groups g))])
        (.ok (), (e.movedTo g).joined i)

theorem Ahead.select_ends (h : Ahead S e front (p :: todo)) (system : System interface σ)
    (state : σ) :
    ∃ entries result kept after,
      (e.select p).run system state = ⟨(result, kept), after, entries⟩ ∧
        Advanced p e entries (result, kept) := by
  have ha := h.addressable p List.mem_cons_self
  obtain ⟨entries, result, kept, after, hrun, hselected⟩ :=
    Editor.select_ends h.tracks.standing p system state
  refine ⟨entries, result, kept, after, hrun, ?_⟩
  cases hselected with
  | joined i hseat => exact .joined i hseat
  | refused hstart hout hne cause =>
      obtain ⟨g, i, hseat⟩ := addressable_iff.mp ha
      have hle := h.index_le p List.mem_cons_self g hseat.owns
      have hg : e.index < g := Nat.lt_of_le_of_ne hle fun heq => hout (heq ▸ hseat.owns)
      exact .refused g hg hseat.owns hne cause
  | moved g i hg hseat => exact .moved g i hg hseat
  -- what is to come has a seat and does not come too late
  | late hlate => exact absurd hlate (Nat.not_lt.mpr (h.start_le List.mem_cons_self))
  | unseated hown hseat => exact absurd ha hseat
  | movedUnseated g hg hown hseat => exact absurd ha hseat
  | beyond hbeyond => exact absurd ha.lt_total (Nat.not_lt.mpr hbeyond)

/-! ## Keeping to a plan -/

/-- Asks for what a plan has, up to the first refusal. -/
def deliver (thread : Thread) : List GroupAffinity → Dialogue interface (Except Error Unit)
  | [] => .done (.ok ())
  | a :: plan =>
    .ask (.bind thread a) fun
      | .error cause => .done (.error (.refused .setGroupAffinity cause))
      | .ok () => deliver thread plan

/-- What a plan has for the groups from `g` on. -/
def onwards (g : Nat) (plan : List GroupAffinity) : List GroupAffinity :=
  plan.filter (g ≤ ·.group)

theorem mem_onwards {a : GroupAffinity} : a ∈ onwards g plan ↔ a ∈ plan ∧ g ≤ a.group := by
  simp [onwards]

theorem onwards_pairwise (hplan : Plan groups S plan) :
    (onwards g plan).Pairwise (·.group < ·.group) :=
  hplan.increasing.filter _

theorem onwards_length (hplan : Plan groups S plan) : onwards groups.length plan = [] := by
  refine List.eq_nil_iff_forall_not_mem.mpr fun a ha => ?_
  obtain ⟨ha, hlen⟩ := mem_onwards.mp ha
  have := ((hplan.takes_iff a.group).mp ⟨a, ha, rfl⟩).lt_length
  omega

theorem deliver_refused {thread : Thread} {a : GroupAffinity} {cause : Refusal}
    {system : System interface σ} {state after : σ} (plan : List GroupAffinity)
    (hreplied : Replied system state [⟨.bind thread a, .error cause⟩] after) :
    let delivered := (deliver thread (a :: plan)).run system state
    exchangesOf delivered.entries = [⟨.bind thread a, .error cause⟩] ∧
      delivered.value = .error (.refused .setGroupAffinity cause) := by
  have hreply : (system.answer (.bind thread a) state).1 = .error cause := hreplied.1.symm
  simp only [deliver, Dialogue.run_ask, hreply]
  exact ⟨rfl, rfl⟩

/-- Once the first requests of a plan are granted, the rest of it remains to be delivered. -/
theorem deliver_granted {thread : Thread} {system : System interface σ} {state after : σ}
    {made : List GroupAffinity} (rest : List GroupAffinity)
    (hreplied : Replied system state (made.map (granted thread)) after) :
    let delivered := (deliver thread (made ++ rest)).run system state
    let remaining := (deliver thread rest).run system after
    exchangesOf delivered.entries = made.map (granted thread) ++ exchangesOf remaining.entries ∧
      delivered.value = remaining.value := by
  induction made generalizing state with
  | nil =>
      obtain rfl : after = state := hreplied
      exact ⟨rfl, rfl⟩
  | cons a made ih =>
      obtain ⟨hreply, hrest⟩ := hreplied
      replace hreply : (system.answer (.bind thread a) state).1 = .ok () := hreply.symm
      obtain ⟨hexchanges, hvalue⟩ := ih hrest
      simp only [List.cons_append, deliver, Dialogue.run_ask, hreply, exchangesOf_call]
      exact ⟨congrArg (_ :: ·) hexchanges, hvalue⟩

/-- What was selected before the group that the editor goes to is accepted. -/
theorem Ahead.mem_front (h : Ahead S e front todo)
    (htodo : ∀ q ∈ todo, ∀ k, Owns e.groups k q → g ≤ k) {k : Nat} (hp : S p)
    (hown : Owns e.groups k p) (hk : k < g) : p ∈ front :=
  ((h.selected p).mp hp).resolve_right fun hmem => Nat.not_lt.mpr (htodo p hmem k hown) hk

/-- What waits is what the plan has for the groups from the editor's own up to the next one
that it goes to. -/
theorem Ahead.mem_due_iff (h : Ahead S e front todo) (hplan : Plan e.groups S plan)
    (hlt : e.pending.mask ≠ 0 → e.index < g)
    (htodo : ∀ q ∈ todo, ∀ k, Owns e.groups k q → g ≤ k) {a : GroupAffinity} :
    a ∈ e.due ↔ a ∈ plan ∧ e.index ≤ a.group ∧ a.group < g := by
  have htakes : ∀ k, (∃ a ∈ plan, a.group = k) ↔ ∃ p, S p ∧ Owns e.groups k p := fun k =>
    (hplan.takes_iff k).trans (takes_iff_of_addressable fun _ => h.addressable_of_selected)
  have hmask : ∀ b ∈ plan, b.group = e.index → e.index < g → b.mask = e.pending.mask := by
    intro b hb hgroup hindex
    have hholds := hplan.holds b hb
    rw [hgroup] at hholds
    exact hholds.unique <| h.tracks.pending.congr fun p hown =>
      ⟨fun hp => (h.selected p).mpr (Or.inl hp), fun hp => h.mem_front htodo hp hown hindex⟩
  rw [Editor.mem_due]
  constructor
  · rintro ⟨hne, rfl⟩
    obtain ⟨p, hp, hown⟩ := h.tracks.exists_of_mask_ne_zero hne
    obtain ⟨b, hb, hgroup⟩ := (htakes e.index).mpr ⟨p, (h.selected p).mpr (Or.inl hp), hown⟩
    rw [← hmask b hb hgroup (hlt hne), ← hgroup]
    exact ⟨hb, Nat.le_refl _, by rw [hgroup]; exact hlt hne⟩
  · rintro ⟨ha, hle, hag⟩
    obtain ⟨p, hp, hown⟩ := (htakes a.group).mp ⟨a, ha, rfl⟩
    have hp := h.mem_front htodo hp hown hag
    have hgroup := Nat.le_antisymm (h.tracks.owner_le hp hown) hle
    have ha := hmask a ha hgroup (by omega)
    rw [hgroup] at hown
    rw [← hgroup, ← ha]
    exact ⟨by rw [ha]; exact h.tracks.mask_ne_zero hp hown, rfl⟩

theorem Ahead.onwards_eq (h : Ahead S e front todo) (hplan : Plan e.groups S plan)
    (hle : e.index ≤ g) (hlt : e.pending.mask ≠ 0 → e.index < g)
    (htodo : ∀ q ∈ todo, ∀ k, Owns e.groups k q → g ≤ k) :
    onwards e.index plan = e.due ++ onwards g plan := by
  have hirrefl : Std.Irrefl fun a b : GroupAffinity => a.group < b.group :=
    ⟨fun _ => Nat.lt_irrefl _⟩
  have hdue : e.due.Pairwise (·.group < ·.group) := by
    by_cases hzero : e.pending.mask = 0
    · rw [Editor.due_of_zero hzero]
      exact List.Pairwise.nil
    · rw [Editor.due_of_ne_zero hzero]
      exact List.pairwise_singleton _ _
  -- both sides go up group by group, so it is enough that they have the same requests
  refine (onwards_pairwise hplan).eq_of_mem_iff ?_ fun a => ?_
  · refine List.pairwise_append.mpr ⟨hdue, onwards_pairwise hplan, fun a ha b hb => ?_⟩
    have := (h.mem_due_iff hplan hlt htodo).mp ha
    have := mem_onwards.mp hb
    omega
  · rw [List.mem_append, h.mem_due_iff hplan hlt htodo, mem_onwards, mem_onwards]
    constructor
    · rintro ⟨ha, hindex⟩
      rcases Nat.lt_or_ge a.group g with hag | hag
      · exact Or.inl ⟨ha, hindex, hag⟩
      · exact Or.inr ⟨ha, hag⟩
    · rintro (⟨ha, hindex, -⟩ | ⟨ha, hag⟩)
      · exact ⟨ha, hindex⟩
      · exact ⟨ha, Nat.le_trans hle hag⟩

/-! ## Any list in group order -/

/-- The same questions with the same replies, and the same result. -/
def ComesTo (fed : Outcome interface σ (Except Error Unit × Editor))
    (delivered : Outcome interface σ (Except Error Unit)) : Prop :=
  exchangesOf fed.entries = exchangesOf delivered.entries ∧ fed.value.1 = delivered.value

theorem Ahead.apply_run (h : Ahead S e front []) (hplan : Plan e.groups S plan)
    (hwait : e.pending.mask ≠ 0) (system : System interface σ) (state : σ) :
    ComesTo (e.apply.run system state)
      ((deliver e.thread (onwards e.index plan)).run system state) := by
  obtain ⟨p, -, hown⟩ := h.tracks.exists_of_mask_ne_zero hwait
  have hleft := h.onwards_eq hplan h.tracks.standing.index_le (fun _ => hown.lt_length)
    fun _ hq => absurd hq List.not_mem_nil
  rw [onwards_length hplan, List.append_nil, Editor.due_of_ne_zero hwait] at hleft
  have hreplied := Dialogue.run_replied system e.apply state
  obtain ⟨entries, result, kept, after, hrun, happlied⟩ :=
    Editor.apply_ends h.tracks.standing system state
  rw [hrun] at hreplied ⊢
  rw [hleft]
  cases happlied with
  | nothing hzero => exact absurd hzero hwait
  | refused _ cause =>
      obtain ⟨hexchanges, hvalue⟩ := deliver_refused [] hreplied
      exact ⟨hexchanges.symm, hvalue.symm⟩
  | granted _ =>
      have hgrants := Editor.exchangesOf_leaving e
      rw [Editor.due_of_ne_zero hwait] at hgrants
      rw [hgrants] at hreplied
      obtain ⟨hexchanges, hvalue⟩ := deliver_granted [] hreplied
      exact ⟨hgrants.trans hexchanges.symm, hvalue.symm⟩

/-- From any point on, feeding what is to come and applying it is as good as delivering what
the plan still has. -/
theorem Ahead.applyAll_run (label : String) (groups : List Group) (system : System interface σ)
    (hS : ∃ q, S q) (todo : List Nat) :
    ∀ {e : Editor} {front : List Nat} (state : σ), Ahead S e front todo →
      Plan e.groups S plan → (front ≠ [] → e.pending.mask ≠ 0) →
      ComesTo (((backend label groups).applyAll todo e).run system state)
        ((deliver e.thread (onwards e.index plan)).run system state) := by
  induction todo with
  | nil =>
      intro e front state h hplan hwait
      obtain ⟨q, hq⟩ := hS
      have hq : q ∈ front := ((h.selected q).mp hq).resolve_right List.not_mem_nil
      exact h.apply_run hplan (hwait (List.ne_nil_of_mem hq)) system state
  | cons p todo ih =>
      intro e front state h hplan hwait
      have hreplied := Dialogue.run_replied system (e.select p) state
      obtain ⟨entries, result, kept, after, hrun, hadvanced⟩ := h.select_ends system state
      rw [hrun] at hreplied
      have hrun : ((backend label groups).select p e).run system state = _ := hrun
      rw [applyAll_cons, Dialogue.run_bind, hrun]
      cases hadvanced with
      | joined i hseat =>
          have hjoined := h.joined hseat
          obtain rfl : after = state := hreplied
          exact ih _ hjoined hplan fun _ => hjoined.waits hseat.owns
      | refused g hg hown hne cause =>
          rw [h.onwards_eq hplan (Nat.le_of_lt hg) (fun _ => hg) (h.le_owner hown),
            Editor.due_of_ne_zero hne]
          obtain ⟨hexchanges, hvalue⟩ := deliver_refused (onwards g plan) hreplied
          exact ⟨hexchanges.symm, hvalue.symm⟩
      | moved g i hg hseat =>
          have hmoved := h.moved hg hseat
          obtain ⟨hrest, hresult⟩ := ih after hmoved hplan fun _ => hmoved.waits hseat.owns
          rw [exchangesOf_append, exchangesOf_event, exchangesOf_nil, List.append_nil,
            Editor.exchangesOf_leaving] at hreplied
          obtain ⟨hexchanges, hvalue⟩ := deliver_granted (onwards g plan) hreplied
          rw [h.onwards_eq hplan (Nat.le_of_lt hg) (fun _ => hg) (h.le_owner hseat.owns)]
          refine ⟨?_, hresult.trans hvalue.symm⟩
          simp only [exchangesOf_append, exchangesOf_event, exchangesOf_nil, List.append_nil,
            Editor.exchangesOf_leaving]
          exact (congrArg (_ ++ ·) hrest).trans hexchanges.symm

theorem applyAll_new_run (few : groups.length < groupNumberLimit) (label : String)
    (thread : Thread) (haddressable : ∀ p ∈ processors, Addressable groups p)
    (hordered : InGroupOrder groups processors) (hS : ∀ q, S q ↔ q ∈ processors)
    (hsome : ∃ q, S q) (hplan : Plan groups S plan) (system : System interface σ) (state : σ) :
    ComesTo (((backend label groups).applyAll processors (Editor.new groups thread)).run system state)
      ((deliver thread plan).run system state) := by
  have hnew : Ahead S (Editor.new groups thread) [] processors :=
    ahead_new thread few haddressable hordered hS
  have hall : onwards 0 plan = plan := List.filter_eq_self.mpr fun a _ => by simp
  have hrun := hnew.applyAll_run label groups system hsome processors state hplan
    fun hne => absurd rfl hne
  have hindex : (Editor.new groups thread).index = 0 := rfl
  rwa [hindex, hall] at hrun

/-- As long as bindings are granted, what comes in group order is accepted. -/
theorem Ahead.selectAll_run (label : String) (groups : List Group) (system : System interface σ)
    (todo : List Nat) :
    ∀ {e : Editor} {front : List Nat} (state : σ), Ahead S e front todo →
      (front ≠ [] → e.pending.mask ≠ 0) →
      let fed := ((backend label groups).selectAll todo e).run system state
      (∀ entry ∈ fed.entries, Complied entry) →
        fed.value.1 = .ok () ∧ fed.value.2.groups = e.groups ∧
          Ahead S fed.value.2 (front ++ todo) [] ∧
          (front ++ todo ≠ [] → fed.value.2.pending.mask ≠ 0) := by
  induction todo with
  | nil =>
      intro e front state h hwait fed hcomplied
      rw [List.append_nil]
      exact ⟨rfl, rfl, h, hwait⟩
  | cons p todo ih =>
      intro e front state h hwait
      obtain ⟨entries, result, kept, after, hrun, hadvanced⟩ := h.select_ends system state
      have hrun : ((backend label groups).select p e).run system state = _ := hrun
      rw [selectAll, Dialogue.run_bind, hrun, List.append_cons]
      intro fed hcomplied
      cases hadvanced with
      | joined i hseat =>
          have hjoined := h.joined hseat
          exact ih after hjoined (fun _ => hjoined.waits hseat.owns) hcomplied
      | refused g hg hown hne cause =>
          have hgranted : Except.error cause = .ok () := hcomplied _ List.mem_cons_self
          cases hgranted
      | moved g i hg hseat =>
          have hmoved := h.moved hg hseat
          exact ih after hmoved (fun _ => hmoved.waits hseat.owns)
            fun entry hentry => hcomplied entry (List.mem_append_right _ hentry)

/-! ## The first descent -/

/-- A new editor that was fed in group order stands on the group of the last processor. -/
theorem selectAll_new_run (few : groups.length < groupNumberLimit) (label : String)
    (thread : Thread) (haddressable : ∀ p ∈ processors, Addressable groups p)
    (hordered : InGroupOrder groups processors) (system : System interface σ) (state : σ) :
    let fed := ((backend label groups).selectAll processors (Editor.new groups thread)).run
      system state
    (∀ entry ∈ fed.entries, Complied entry) →
      fed.value.1 = .ok () ∧ fed.value.2.Standing ∧ fed.value.2.groups = groups ∧
        ∀ init p g, processors = init ++ [p] → Owns groups g p → fed.value.2.index = g := by
  intro fed hcomplied
  have hnew : Ahead (· ∈ processors) (Editor.new groups thread) [] processors :=
    ahead_new thread few haddressable hordered fun _ => Iff.rfl
  obtain ⟨hok, hgroups, hfed, hwait⟩ := hnew.selectAll_run label groups system processors state
    (fun hne => absurd rfl hne) hcomplied
  refine ⟨hok, hfed.tracks.standing, hgroups, ?_⟩
  rintro init p g rfl hp
  rw [List.nil_append] at hfed hwait
  have hgroups : fed.value.2.groups = groups := hgroups
  -- what waits was accepted in the editor's group, and nothing comes before it
  obtain ⟨q, hq, hown⟩ := hfed.tracks.exists_of_mask_ne_zero (hwait (by simp))
  rw [hgroups] at hown
  refine Nat.le_antisymm ?_ ?_
  · rcases List.mem_append.mp hq with hq | hq
    · have hle := (List.pairwise_append.mp hordered).2.2 q hq p (List.mem_singleton.mpr rfl)
      exact hle _ _ hown hp
    · obtain rfl := List.mem_singleton.mp hq
      exact Nat.le_of_eq (hown.unique hp)
  · rw [← hgroups] at hp
    exact hfed.tracks.owner_le (List.mem_append_right init (List.mem_singleton.mpr rfl)) hp

/-- The processor after a descent lies before the group that the editor stands on. -/
theorem selectAll_descent (few : groups.length < groupNumberLimit) (label : String)
    (thread : Thread) {back : List Nat}
    (haddressable : ∀ r ∈ front ++ p :: q :: back, Addressable groups r)
    (hdescent : Descent groups front p q g h) (system : System interface σ) (state : σ) :
    let new := Editor.new groups thread
    let fed := ((backend label groups).selectAll (front ++ p :: q :: back) new).run system state
    (∀ entry ∈ fed.entries, Complied entry) →
      ∃ e, (((backend label groups).selectAll (front ++ [p]) new).run system state).value =
          (.ok (), e) ∧
        e.index = g ∧ e.start = startOf groups g ∧
        fed.value = (.error (.orderViolation q (startOf groups g)), e) := by
  intro new fed hcomplied
  have hsplit : front ++ p :: q :: back = (front ++ [p]) ++ q :: back := by simp
  have hfed : fed = ((backend label groups).selectAll ((front ++ [p]) ++ q :: back) new).run
    system state := by rw [← hsplit]
  rw [selectAll_append, Dialogue.run_bind] at hfed
  have hfront : ∀ r ∈ front ++ [p], Addressable groups r := fun r hr =>
    haddressable r (hsplit ▸ List.mem_append_left _ hr)
  have hbefore := selectAll_new_run few label thread hfront hdescent.ordered system state
  dsimp only at hbefore hfed
  generalize ((backend label groups).selectAll (front ++ [p]) new).run system state = first at *
  obtain ⟨⟨result, e⟩, after, entries⟩ := first
  obtain ⟨hok, hstanding, hgroups, hindex⟩ := hbefore fun entry hentry =>
    hcomplied entry (by rw [hfed]; exact List.mem_append_left _ hentry)
  obtain rfl : result = .ok () := hok
  have hindex : e.index = g := hindex front p g rfl hdescent.before
  have hstart : e.start = startOf groups g := by
    rw [hstanding.start_eq, hindex]
    exact congrArg (startOf · g) hgroups
  have hlate : q < e.start := hstart ▸ hdescent.after.lt_startOf hdescent.lt
  have hselect : (backend label groups).select q e =
      .done (.error (.orderViolation q e.start), e) := Editor.select_of_late hlate
  refine ⟨e, rfl, hindex, hstart, ?_⟩
  simp only [hfed, selectAll, hselect, hstart, Dialogue.bind, Dialogue.run_done]

/-! ## Order is all that matters -/

/-- In group order a list is as good as its processors sorted, each of them once. -/
theorem applyAll_sorted (few : groups.length < groupNumberLimit) (label : String)
    (thread : Thread) (haddressable : ∀ p ∈ processors, Addressable groups p)
    (hordered : InGroupOrder groups processors) (system : System interface σ) (state : σ) :
    let new := Editor.new groups thread
    let sorted := processors.toFinset.sort (· ≤ ·)
    let fed := ((backend label groups).applyAll processors new).run system state
    let straight := ((backend label groups).applyAll sorted new).run system state
    exchangesOf fed.entries = exchangesOf straight.entries ∧ fed.value.1 = straight.value.1 := by
  intro new sorted fed straight
  have hmem : ∀ p, p ∈ processors ↔ p ∈ sorted := fun p => by
    rw [Finset.mem_sort, List.mem_toFinset]
  have hincreasing : sorted.Pairwise (· < ·) := (Finset.sortedLT_sort _).pairwise
  cases hcases : processors with
  | nil =>
      have hnil : sorted = [] :=
        List.eq_nil_iff_forall_not_mem.mpr fun p hp => by simpa [hcases] using (hmem p).mpr hp
      have hsame : fed = straight := by
        simp only [fed, straight, hcases, hnil]
      rw [hsame]
      exact ⟨rfl, rfl⟩
  | cons first rest =>
      have hsome : ∃ p, p ∈ processors := ⟨first, by simp [hcases]⟩
      obtain ⟨plan, hplan⟩ := exists_plan groups (· ∈ processors)
      have hfed : ComesTo fed ((deliver thread plan).run system state) :=
        applyAll_new_run few label thread haddressable hordered (fun _ => Iff.rfl) hsome hplan
          system state
      have hstraight : ComesTo straight ((deliver thread plan).run system state) :=
        applyAll_new_run few label thread (fun p hp => haddressable p ((hmem p).mpr hp))
          (inGroupOrder_of_increasing hincreasing) hmem hsome hplan system state
      exact ⟨hfed.1.trans hstraight.1.symm, hfed.2.trans hstraight.2.symm⟩

/-- Of the processors that a new group editor is fed, only the order of the groups matters.
In group order, any list makes the same exchanges with the system and comes to the same result
as its processors sorted, each of them once. A system that grants every binding sees the
list accepted if and only if it is in group order; and if it is not, it is the processor after
the first descent that comes too late for the group that the editor stands on. -/
theorem only_group_order_matters {bytes : List UInt8}
    (haccepted : Topology.decode bytes = .ok groups) (label : String) (thread : Thread)
    (haddressable : ∀ p ∈ processors, Addressable groups p)
    (system : System interface σ) (state : σ) :
    let new := Editor.new groups thread
    let select := fun list => ((backend label groups).selectAll list new).run system state
    let apply := fun list => ((backend label groups).applyAll list new).run system state
    (InGroupOrder groups processors →
      let sorted := processors.toFinset.sort (· ≤ ·)
      exchangesOf (apply processors).entries = exchangesOf (apply sorted).entries ∧
        (apply processors).value.1 = (apply sorted).value.1) ∧
    ((∀ entry ∈ (select processors).entries, Complied entry) →
      ((select processors).value.1 = .ok () ↔ InGroupOrder groups processors) ∧
      ∀ front p q back g h, processors = front ++ p :: q :: back → Descent groups front p q g h →
        ∃ e, (select (front ++ [p])).value = (.ok (), e) ∧
          e.index = g ∧ e.start = startOf groups g ∧
          (select processors).value = (.error (.orderViolation q (startOf groups g)), e)) := by
  intro new select apply
  have few : groups.length < groupNumberLimit := (Topology.length_of_decode haccepted).2
  refine ⟨fun hordered => applyAll_sorted few label thread haddressable hordered system state,
    fun hcomplied => ?_⟩
  have hviolated : ∀ front p q back g h, processors = front ++ p :: q :: back →
      Descent groups front p q g h → ∃ e, (select (front ++ [p])).value = (.ok (), e) ∧
        e.index = g ∧ e.start = startOf groups g ∧
        (select processors).value = (.error (.orderViolation q (startOf groups g)), e) := by
    rintro front p q back g h rfl hdescent
    exact selectAll_descent few label thread haddressable hdescent system state hcomplied
  refine ⟨⟨fun hok => ?_, fun hordered => ?_⟩, hviolated⟩
  · by_contra hdisordered
    obtain ⟨front, p, q, back, g, h, hlist, hdescent⟩ := exists_descent haddressable hdisordered
    obtain ⟨e, -, -, -, hvalue⟩ := hviolated front p q back g h hlist hdescent
    rw [hvalue] at hok
    cases hok
  · exact (selectAll_new_run few label thread haddressable hordered system state hcomplied).1

/-- Across an empty group and gaps between the positions. One list is in group order, and the
system refuses the second of its two bindings; the other goes back to the first group from the
last one, which starts where the empty group does. -/
theorem only_group_order_matters_across_gaps :
    let groups : List Group := [⟨2, 0xa⟩, ⟨0, 0⟩, ⟨3, 0x8000000000000011⟩]
    let ordered := [1, 0, 1, 4, 2, 4]
    let disordered := [0, 1, 3, 4, 1, 2]
    let new := Editor.new groups (.handle 7)
    let refusing : Script :=
      ⟨[], .caller, (.ok (), 0), (.ok (), 0), true, [.ok (), .error (.code 5)]⟩
    let granting : Script := ⟨[], .caller, (.ok (), 0), (.ok (), 0), true, []⟩
    let apply := fun list =>
      ((backend "scripted" groups).applyAll list new).run scripted refusing
    let select := fun list =>
      ((backend "scripted" groups).selectAll list new).run scripted granting
    Topology.decode (Topology.groupRecord groups) = .ok groups ∧
      (InGroupOrder groups ordered ∧
        let sorted := ordered.toFinset.sort (· ≤ ·)
        exchangesOf (apply ordered).entries = exchangesOf (apply sorted).entries ∧
          (apply ordered).value.1 = (apply sorted).value.1) ∧
      Descent groups [0, 1, 3] 4 1 2 0 ∧
        ∃ e, (select [0, 1, 3, 4]).value = (.ok (), e) ∧ e.index = 2 ∧ e.start = 2 ∧
          (select disordered).value = (.error (.orderViolation 1 2), e) := by
  intro groups ordered disordered new refusing granting apply select
  have haccepted : Topology.decode (Topology.groupRecord groups) = .ok groups :=
    Topology.decode_groupRecord (by decide) (by decide)
  have hseats : ∀ grp ∈ groups, grp.count.toNat ≤ Word.popCount grp.mask := by decide
  have hordered : ∀ p ∈ ordered, Addressable groups p := fun p hp =>
    addressable_of_lt_total hseats ((by decide : ∀ p ∈ ordered, p < total groups) p hp)
  have hdisordered : ∀ p ∈ disordered, Addressable groups p := fun p hp =>
    addressable_of_lt_total hseats ((by decide : ∀ p ∈ disordered, p < total groups) p hp)
  have horder : InGroupOrder groups ordered := by decide
  have hdescent : Descent groups [0, 1, 3] 4 1 2 0 :=
    ⟨by decide, by decide, by decide, by decide⟩
  obtain ⟨hsorted, -⟩ :=
    only_group_order_matters haccepted "scripted" (.handle 7) hordered scripted refusing
  obtain ⟨-, hviolated⟩ :=
    only_group_order_matters haccepted "scripted" (.handle 7) hdisordered scripted granting
  obtain ⟨-, hlast⟩ := hviolated (complied_scripted _ rfl)
  exact ⟨haccepted, ⟨horder, hsorted horder⟩, hdescent,
    hlast [0, 1, 3] 4 1 [2] 2 0 rfl hdescent⟩

end Grouped

end ThreadAffinity
