import Mathlib.Data.Prod.Lex
import Mathlib.Data.Set.Function
import ThreadAffinity.Proofs.Grouped.Delivery

/-!
# Processors and their seats

`seat?` is the map from processor numbers to seats, a seat being a group and a position of
that group. It is defined on the list of groups, without an editor: pass by the groups that
end before the processor, and take the set position of the rank that is left.

- `seat?_eq_some_iff`, `seat?_eq_none_iff`: it finds the seat of a processor, and finds none
  exactly if there is none.
- `lt_of_seat?_lt`: seats come in the order of the processors. Groups come first, as
  processors are numbered group by group, and within a group ranks go up with positions.
- `bijOn_seat?`: with as many seats in each group as the group counts processors, no
  processor is without a seat and no seat without a processor.

Binding a thread to one processor comes down to the map. The editor is new, so nothing waits
in it while it looks for the group, and afterwards one position does.
-/

namespace ThreadAffinity

namespace Group

variable {groups : List Group} {grp : Group} {g h p q i j : Nat}

/-! ## The map -/

/-- The group of a processor and its position there. -/
def seat? : List Group → Nat → Option (Nat ×ₗ Nat)
  | [], _ => none
  | grp :: groups, p =>
    if p < grp.count.toNat then (Word.positions grp.mask)[p]?.map fun i => toLex (0, i)
    else (seat? groups (p - grp.count.toNat)).map fun seat =>
      toLex ((ofLex seat).1 + 1, (ofLex seat).2)

theorem startOf_cons_succ (grp : Group) (groups : List Group) (g : Nat) :
    startOf (grp :: groups) (g + 1) = grp.count.toNat + startOf groups g := rfl

theorem seated_cons_zero : Seated (grp :: groups) 0 p i ↔
    p < grp.count.toNat ∧ (Word.positions grp.mask)[p]? = some i := by
  rw [Word.getElem?_positions]
  constructor
  · rintro ⟨own, hown, ⟨-, hlt⟩, hset, hrank⟩
    obtain rfl : grp = own := Option.some.inj hown
    rw [startOf_zero] at hlt hrank
    exact ⟨by omega, hset, hrank⟩
  · rintro ⟨hlt, hset, hrank⟩
    refine ⟨grp, rfl, ?_, hset, ?_⟩
    · rw [startOf_zero]
      omega
    · rw [startOf_zero]
      exact hrank

theorem seated_cons_succ : Seated (grp :: groups) (g + 1) p i ↔
    grp.count.toNat ≤ p ∧ Seated groups g (p - grp.count.toNat) i := by
  unfold Seated
  rw [startOf_cons_succ, List.getElem?_cons_succ]
  constructor
  · rintro ⟨own, hown, ⟨hle, hlt⟩, hset, hrank⟩
    exact ⟨by omega, own, hown, by omega, hset, by omega⟩
  · rintro ⟨hle, own, hown, hrange, hset, hrank⟩
    exact ⟨own, hown, by omega, hset, by omega⟩

theorem seat?_eq_some_iff : seat? groups p = some (toLex (g, i)) ↔ Seated groups g p i := by
  induction groups generalizing g p with
  | nil =>
      constructor
      · intro h
        cases h
      · rintro ⟨grp, hg, -⟩
        cases hg
  | cons grp groups ih =>
      unfold seat?
      cases g with
      | zero =>
          rw [seated_cons_zero]
          split
          · rename_i hlt
            simp [hlt]
          · rename_i hge
            simp [hge]
      | succ g =>
          rw [seated_cons_succ, ← ih]
          split
          · rename_i hlt
            simp [Nat.not_le.mpr hlt]
          · rename_i hge
            rw [Option.map_eq_some_iff]
            constructor
            · rintro ⟨seat, hseat, heq⟩
              obtain ⟨hgroup, hposition⟩ := Prod.mk.inj (toLex.injective heq)
              obtain rfl : seat = toLex (g, i) :=
                ofLex.injective (Prod.ext (Nat.succ.inj hgroup) hposition)
              exact ⟨Nat.le_of_not_lt hge, hseat⟩
            · rintro ⟨-, hseat⟩
              exact ⟨_, hseat, rfl⟩

theorem seat?_eq_none_iff : seat? groups p = none ↔ ¬ Addressable groups p := by
  rw [addressable_iff]
  constructor
  · rintro hnone ⟨g, i, hseat⟩
    rw [seat?_eq_some_iff.mpr hseat] at hnone
    cases hnone
  · intro hnone
    by_contra hsome
    obtain ⟨seat, hseat⟩ := Option.ne_none_iff_exists'.mp hsome
    exact hnone ⟨_, _, seat?_eq_some_iff.mp hseat⟩

/-! ## Order -/

theorem Seated.lt_of_lt (hp : Seated groups g p i) (hq : Seated groups h q j) (hpq : p < q) :
    toLex (g, i) < toLex (h, j) := by
  rw [Prod.Lex.toLex_lt_toLex]
  rcases Nat.lt_or_eq_of_le (hp.owns.le_of_le hq.owns (Nat.le_of_lt hpq)) with hlt | rfl
  · exact Or.inl hlt
  · refine Or.inr ⟨rfl, ?_⟩
    show i < j
    obtain ⟨grp, hg, ⟨hle, -⟩, hset, hrank⟩ := hp
    obtain ⟨own, hown, -, hset', hrank'⟩ := hq
    obtain rfl : grp = own := Option.some.inj (hg.symm.trans hown)
    -- a position that is not higher does not have the higher rank
    by_contra hji
    rcases Nat.lt_or_eq_of_le (Nat.le_of_not_lt hji) with hlt | rfl
    · have := Word.rank_lt_rank hset' hlt
      omega
    · omega

theorem lt_of_seat?_lt {x y : Nat ×ₗ Nat} (hx : seat? groups p = some x)
    (hy : seat? groups q = some y) (hpq : p < q) : x < y :=
  (seat?_eq_some_iff.mp hx).lt_of_lt (seat?_eq_some_iff.mp hy) hpq

theorem injOn_seat? : Set.InjOn (seat? groups) {p | Addressable groups p} := by
  intro p hp q hq heq
  obtain ⟨g, i, hseat⟩ := addressable_iff.mp hp
  rw [← seat?_eq_some_iff] at hseat
  rcases Nat.lt_trichotomy p q with hlt | hpq | hlt
  · exact absurd (lt_of_seat?_lt hseat (heq ▸ hseat) hlt) (lt_irrefl _)
  · exact hpq
  · exact absurd (lt_of_seat?_lt (heq ▸ hseat) hseat hlt) (lt_irrefl _)

/-! ## Seats in use -/

def InUse (groups : List Group) (seat : Nat ×ₗ Nat) : Prop :=
  ∃ grp, groups[(ofLex seat).1]? = some grp ∧ grp.mask.getLsbD (ofLex seat).2 = true

theorem Seated.inUse (hp : Seated groups g p i) : InUse groups (toLex (g, i)) := by
  obtain ⟨grp, hg, -, hset, -⟩ := hp
  exact ⟨grp, hg, hset⟩

theorem exists_seated_of_inUse
    (hcounts : ∀ grp ∈ groups, grp.count.toNat = Word.popCount grp.mask)
    (h : InUse groups (toLex (g, i))) : ∃ p, Seated groups g p i := by
  obtain ⟨grp, hg, hset⟩ := h
  have hrank : Word.rank grp.mask i < grp.count.toNat := by
    rw [hcounts grp (List.mem_of_getElem? hg)]
    exact Word.exists_rank_iff.mp ⟨i, hset, rfl⟩
  exact ⟨startOf groups g + Word.rank grp.mask i, grp, hg, by omega, hset, by omega⟩

theorem bijOn_seat? (hcounts : ∀ grp ∈ groups, grp.count.toNat = Word.popCount grp.mask) :
    Set.BijOn (seat? groups) {p | p < total groups} (some '' {seat | InUse groups seat}) := by
  have haddressable : ∀ p < total groups, Addressable groups p := fun p hp =>
    addressable_of_lt_total (fun grp hgrp => Nat.le_of_eq (hcounts grp hgrp)) hp
  refine ⟨?_, injOn_seat?.mono haddressable, ?_⟩
  · intro p hp
    obtain ⟨g, i, hseat⟩ := addressable_iff.mp (haddressable p hp)
    rw [seat?_eq_some_iff.mpr hseat]
    exact ⟨_, hseat.inUse, rfl⟩
  · rintro _ ⟨seat, hseat, rfl⟩
    obtain ⟨p, hp⟩ := exists_seated_of_inUse hcounts hseat
    exact ⟨p, hp.owns.lt_total, seat?_eq_some_iff.mpr hp⟩

end Group

namespace Grouped

open ThreadAffinity.Group Backend

variable {σ : Type} {groups : List Group} {e : Editor} {p g i : Nat}

/-! ## Binding to one processor -/

/-- Applying a single position asks for just that, and the verdict is the result. -/
theorem Editor.apply_joined_run (he : Standing e) (hzero : e.pending.mask = 0) (hi : i < 64)
    (system : System interface σ) (state : σ) :
    let applied := (e.joined i).apply.run system state
    ∃ verdict, exchangesOf applied.entries = [⟨.bind e.thread ⟨e.index, Word.bit i⟩, verdict⟩] ∧
      applied.value.1 = verdict.mapError (.refused .setGroupAffinity) := by
  have hmask : (e.joined i).pending.mask = Word.bit i := by
    simp [Editor.joined, hzero]
  obtain ⟨entries, result, kept, after, hrun, happlied⟩ := apply_ends (he.joined hi) system state
  rw [hrun]
  cases happlied with
  | nothing h =>
      have hset := Word.getLsbD_bit i i
      rw [← hmask, h] at hset
      simp [hi] at hset
  | refused h cause =>
      rw [hmask]
      exact ⟨.error cause, rfl, rfl⟩
  | granted h =>
      refine ⟨.ok (), ?_, rfl⟩
      rw [exchangesOf_leaving, due_of_ne_zero h, hmask]
      rfl

/-- Binding to one processor asks to bind to its seat and nothing else, or asks nothing. -/
theorem bindThread_ends (few : groups.length < groupNumberLimit) (label : String)
    (thread : Thread) (p : Nat) (system : System interface σ) (state : σ) :
    let outcome := ((backend label groups).bindThread thread p).run system state
    (∃ g i verdict, Seated groups g p i ∧
      exchangesOf outcome.entries = [⟨.bind thread ⟨g, Word.bit i⟩, verdict⟩] ∧
        outcome.value = verdict.mapError (.refused .setGroupAffinity)) ∨
    (¬ Addressable groups p ∧ exchangesOf outcome.entries = [] ∧
      outcome.value = .error (.notFound p)) := by
  have hnew : Editor.Standing (Editor.new groups thread) := Editor.standing_new thread few
  have hzero : (Editor.new groups thread).pending.mask = 0 := rfl
  have hleaving : (Editor.new groups thread).leaving = [] := rfl
  obtain ⟨entries, result, kept, after, hrun, hselected⟩ :=
    Editor.select_ends hnew p system state
  have hrun : ((backend label groups).select p (Editor.new groups thread)).run system state = _ :=
    hrun
  simp only [bindThread_eq_withEditor, withEditor_run, applyAll_cons, Dialogue.run_bind, hrun]
  cases hselected with
  | late hlate => exact absurd hlate (Nat.not_lt_zero p)
  | joined i hseat =>
      left
      obtain ⟨verdict, hasked, hvalue⟩ :=
        Editor.apply_joined_run hnew hzero hseat.lt_64 system after
      exact ⟨0, i, verdict, hseat, hasked, hvalue⟩
  | unseated hown ha => exact Or.inr ⟨ha, rfl, rfl⟩
  | refused hstart hout hne cause => exact absurd hzero hne
  | moved g i hg hseat =>
      left
      have hmoved := hnew.movedTo (Nat.le_of_lt hseat.owns.lt_length)
      obtain ⟨verdict, hasked, hvalue⟩ :=
        Editor.apply_joined_run hmoved rfl hseat.lt_64 system after
      rw [hleaving]
      exact ⟨g, i, verdict, hseat, hasked, hvalue⟩
  | movedUnseated g hg hown ha =>
      rw [hleaving]
      exact Or.inr ⟨ha, rfl, rfl⟩
  | beyond hbeyond =>
      rw [hleaving]
      exact Or.inr ⟨fun ha => Nat.not_lt.mpr hbeyond ha.lt_total, rfl, rfl⟩

/-- Binding a thread to a processor asks the system once, to bind it to the seat of the
processor, and asks nothing if there is no such seat. The seats come in the order of the
processors; they are all the positions in use, one for each processor, if every group counts
as many processors as it uses positions. -/
theorem bindThread_translates {bytes : List UInt8} (haccepted : Topology.decode bytes = .ok groups)
    (label : String) (thread : Thread) :
    (∀ p g h, Owns groups g p → Owns groups h p → g = h) ∧
    (∀ p g i, seat? groups p = some (toLex (g, i)) ↔ Seated groups g p i) ∧
    (∀ p, seat? groups p = none ↔ ¬ Addressable groups p) ∧
    (∀ (p : Nat) {σ : Type} (system : System interface σ) (state : σ),
      let outcome := ((backend label groups).bindThread thread p).run system state
      (∀ g i, seat? groups p = some (toLex (g, i)) → ∃ verdict,
        exchangesOf outcome.entries = [⟨.bind thread ⟨g, Word.bit i⟩, verdict⟩] ∧
          outcome.value = verdict.mapError (.refused .setGroupAffinity)) ∧
      (seat? groups p = none →
        exchangesOf outcome.entries = [] ∧ outcome.value = .error (.notFound p))) ∧
    (∀ p q x y, seat? groups p = some x → seat? groups q = some y → p < q → x < y) ∧
    Set.InjOn (seat? groups) {p | Addressable groups p} ∧
    ((∀ grp ∈ groups, grp.count.toNat = Word.popCount grp.mask) →
      ∀ {σ : Type} (system : System interface σ) (state : σ),
        Set.BijOn (seat? groups)
          {p | p < ((backend label groups).processorCount.run system state).value}
          (some '' {seat | InUse groups seat})) := by
  have few : groups.length < groupNumberLimit := (Topology.length_of_decode haccepted).2
  refine ⟨fun p g h hg hh => hg.unique hh, fun p g i => seat?_eq_some_iff,
    fun p => seat?_eq_none_iff, ?_, fun p q x y hx hy hpq => lt_of_seat?_lt hx hy hpq,
    injOn_seat?, fun hcounts σ system state => bijOn_seat? hcounts⟩
  intro p σ system state
  rcases bindThread_ends few label thread p system state with
    ⟨k, j, verdict, hseat, hasked, hvalue⟩ | ⟨ha, hasked, hvalue⟩
  · refine ⟨fun g i h => ⟨verdict, ?_, hvalue⟩, fun hnone => ?_⟩
    · rw [seat?_eq_some_iff] at h
      obtain rfl := h.owns.unique hseat.owns
      obtain rfl := h.unique hseat
      exact hasked
    · exact absurd hseat.addressable (seat?_eq_none_iff.mp hnone)
  · refine ⟨fun g i h => ?_, fun _ => ⟨hasked, hvalue⟩⟩
    exact absurd (seat?_eq_some_iff.mp h).addressable ha

/-- An empty group in between, and positions that are not next to each other. -/
theorem bindThread_translates_across_gaps :
    let groups : List Group := [⟨2, 0xa⟩, ⟨0, 0⟩, ⟨3, 0x8000000000000011⟩]
    let outcome := ((backend "scripted" groups).bindThread (.handle 7) 4).run scripted
      ⟨[], .caller, (.ok (), 0), (.ok (), 0), true, [.error (.code 5)]⟩
    Topology.decode (Topology.groupRecord groups) = .ok groups ∧
      (∀ grp ∈ groups, grp.count.toNat = Word.popCount grp.mask) ∧
      seat? groups 4 = some (toLex (2, 63)) ∧
      (∃ verdict : Verdict,
        exchangesOf outcome.entries = [⟨.bind (.handle 7) ⟨2, Word.bit 63⟩, verdict⟩] ∧
          outcome.value = verdict.mapError (.refused .setGroupAffinity)) ∧
      Set.BijOn (seat? groups) {p | p < 5} (some '' {seat | InUse groups seat}) := by
  intro groups outcome
  have haccepted : Topology.decode (Topology.groupRecord groups) = .ok groups :=
    Topology.decode_groupRecord (by decide) (by decide)
  have hcounts : ∀ grp ∈ groups, grp.count.toNat = Word.popCount grp.mask := by decide
  have hseat : seat? groups 4 = some (toLex (2, 63)) := by decide
  let script : Script := ⟨[], .caller, (.ok (), 0), (.ok (), 0), true, [.error (.code 5)]⟩
  obtain ⟨-, -, -, hbinds, -, -, hbij⟩ := bindThread_translates haccepted "scripted" (.handle 7)
  exact ⟨haccepted, hcounts, hseat, (hbinds 4 scripted script).1 2 63 hseat,
    hbij hcounts scripted script⟩

end Grouped

end ThreadAffinity
