import ThreadAffinity.Proofs.WordRank
import ThreadAffinity.Topology.Group

/-!
# Where a processor sits

Processors are numbered through all groups. A group owns the numbers from its first
processor on, one for each processor in use; the processor of in-group rank `k` sits
at the `k`-th set position of the group's mask. A group may count more processors
than its mask has set bits, and then the last numbers it owns have no seat.

- `Owns`: the number belongs to the group. At most one group owns a number
  (`Owns.unique`), and every number below the total is owned (`exists_owns`).
- `Seated`: the number belongs to the group and sits at this position.
- `Addressable`: the number belongs to a group that has a seat for it;
  `addressable_iff` says that this is a seat of exactly the right rank.
-/

namespace ThreadAffinity

namespace Group

variable {groups : List Group} {grp : Group} {g h p q i j : Nat}

/-! ## First processors -/

@[simp] theorem startOf_zero (groups : List Group) : startOf groups 0 = 0 := by
  simp [startOf]

theorem startOf_succ (hg : groups[g]? = some grp) :
    startOf groups (g + 1) = startOf groups g + grp.count.toNat := by
  rw [startOf, startOf, List.take_add_one, hg, total_append, Option.toList_some, total_cons,
    total_nil, Nat.add_zero]

theorem startOf_of_length_le (hg : groups.length ≤ g) : startOf groups g = total groups := by
  rw [startOf, List.take_of_length_le hg]

theorem startOf_add_total_drop (groups : List Group) (index : Nat) :
    startOf groups index + total (groups.drop index) = total groups := by
  rw [startOf, ← total_append, List.take_append_drop]

theorem startOf_le_succ (groups : List Group) (g : Nat) :
    startOf groups g ≤ startOf groups (g + 1) := by
  cases hg : groups[g]? with
  | none =>
      have hlen : groups.length ≤ g := List.getElem?_eq_none_iff.mp hg
      rw [startOf_of_length_le hlen, startOf_of_length_le (Nat.le_succ_of_le hlen)]
  | some grp =>
      rw [startOf_succ hg]
      exact Nat.le_add_right _ _

theorem startOf_mono (hgh : g ≤ h) : startOf groups g ≤ startOf groups h := by
  induction hgh with
  | refl => exact Nat.le_refl _
  | step _ ih => exact Nat.le_trans ih (startOf_le_succ groups _)

theorem startOf_le_total (groups : List Group) (g : Nat) : startOf groups g ≤ total groups := by
  rcases Nat.le_total g groups.length with hg | hg
  · rw [← startOf_of_length_le (Nat.le_refl groups.length)]
    exact startOf_mono hg
  · exact Nat.le_of_eq (startOf_of_length_le hg)

/-! ## Owners -/

/-- Group `g` owns the processor number `p`. -/
def Owns (groups : List Group) (g p : Nat) : Prop :=
  ∃ grp, groups[g]? = some grp ∧ startOf groups g ≤ p ∧ p < startOf groups g + grp.count.toNat

theorem Owns.start_le (hp : Owns groups g p) : startOf groups g ≤ p := by
  obtain ⟨grp, -, hle, -⟩ := hp
  exact hle

theorem Owns.lt_length (hp : Owns groups g p) : g < groups.length := by
  obtain ⟨grp, hg, -⟩ := hp
  exact (List.getElem?_eq_some_iff.mp hg).1

theorem Owns.lt_startOf_succ (hp : Owns groups g p) : p < startOf groups (g + 1) := by
  obtain ⟨grp, hg, -, hlt⟩ := hp
  rwa [startOf_succ hg]

theorem Owns.lt_startOf (hp : Owns groups g p) (hgh : g < h) : p < startOf groups h :=
  Nat.lt_of_lt_of_le hp.lt_startOf_succ (startOf_mono hgh)

theorem Owns.lt_total (hp : Owns groups g p) : p < total groups :=
  Nat.lt_of_lt_of_le hp.lt_startOf_succ (startOf_le_total groups _)

/-- Owners come in the order of the numbers they own. -/
theorem Owns.le_of_le (hp : Owns groups g p) (hq : Owns groups h q) (hpq : p ≤ q) : g ≤ h := by
  by_contra hlt
  have := hq.lt_startOf (Nat.lt_of_not_le hlt)
  have := hp.start_le
  omega

theorem Owns.unique (hp : Owns groups g p) (hp' : Owns groups h p) : g = h :=
  Nat.le_antisymm (hp.le_of_le hp' (Nat.le_refl p)) (hp'.le_of_le hp (Nat.le_refl p))

theorem exists_owns (hp : p < total groups) : ∃ g, Owns groups g p := by
  -- the last group whose first processor is not behind `p`
  suffices ∀ n, p < startOf groups n → ∃ g, Owns groups g p from
    this groups.length (by rwa [startOf_of_length_le (Nat.le_refl _)])
  intro n
  induction n with
  | zero => simp
  | succ n ih =>
      intro hlt
      by_cases hn : p < startOf groups n
      · exact ih hn
      · cases hg : groups[n]? with
        | none =>
            have hlen : groups.length ≤ n := List.getElem?_eq_none_iff.mp hg
            rw [startOf_of_length_le (Nat.le_succ_of_le hlen)] at hlt
            rw [startOf_of_length_le hlen] at hn
            exact absurd hlt hn
        | some grp =>
            rw [startOf_succ hg] at hlt
            exact ⟨n, grp, hg, Nat.le_of_not_lt hn, hlt⟩

/-! ## Seats -/

/-- Processor `p` belongs to group `g` and sits at position `i` there: the position
is set, and below it there are as many set positions as there are processors of the
group before `p`. -/
def Seated (groups : List Group) (g p i : Nat) : Prop :=
  ∃ grp, groups[g]? = some grp ∧
    (startOf groups g ≤ p ∧ p < startOf groups g + grp.count.toNat) ∧
    grp.mask.getLsbD i = true ∧ Word.rank grp.mask i = p - startOf groups g

/-- Some group owns `p` and has a set position for its rank. -/
def Addressable (groups : List Group) (p : Nat) : Prop :=
  ∃ g grp, groups[g]? = some grp ∧
    (startOf groups g ≤ p ∧ p < startOf groups g + grp.count.toNat) ∧
    p - startOf groups g < Word.popCount grp.mask

theorem Seated.owns (hp : Seated groups g p i) : Owns groups g p := by
  obtain ⟨grp, hg, hrange, -⟩ := hp
  exact ⟨grp, hg, hrange⟩

theorem Seated.lt_64 (hp : Seated groups g p i) : i < 64 := by
  obtain ⟨grp, -, -, hset, -⟩ := hp
  exact BitVec.lt_of_getLsbD hset

/-- A processor has one seat. -/
theorem Seated.unique (hp : Seated groups g p i) (hp' : Seated groups g p j) : i = j := by
  obtain ⟨grp, hg, -, hset, hrank⟩ := hp
  obtain ⟨grp', hg', -, hset', hrank'⟩ := hp'
  obtain rfl : grp = grp' := Option.some.inj (hg.symm.trans hg')
  exact Word.eq_of_rank_eq hset hset' (hrank.trans hrank'.symm)

/-- The processors that a group counts sit at its lowest set positions. -/
theorem Seated.mem_take_positions {grp : Group} (hp : Seated groups g p i)
    (hg : groups[g]? = some grp) : i ∈ (Word.positions grp.mask).take grp.count.toNat := by
  obtain ⟨own, hown, hrange, hset, hrank⟩ := hp
  obtain rfl : grp = own := Option.some.inj (hg.symm.trans hown)
  rw [List.mem_iff_getElem?]
  refine ⟨Word.rank grp.mask i, ?_⟩
  rw [List.getElem?_take_of_lt (by omega)]
  exact Word.getElem?_positions.mpr ⟨hset, rfl⟩

theorem addressable_iff : Addressable groups p ↔ ∃ g i, Seated groups g p i := by
  constructor
  · rintro ⟨g, grp, hg, hrange, hlt⟩
    obtain ⟨i, hset, hrank⟩ := Word.exists_rank_iff.mpr hlt
    exact ⟨g, i, grp, hg, hrange, hset, hrank⟩
  · rintro ⟨g, i, grp, hg, hrange, hset, hrank⟩
    exact ⟨g, grp, hg, hrange, Word.exists_rank_iff.mp ⟨i, hset, hrank⟩⟩

theorem Seated.addressable (hp : Seated groups g p i) : Addressable groups p :=
  addressable_iff.mpr ⟨g, i, hp⟩

theorem Addressable.lt_total (ha : Addressable groups p) : p < total groups := by
  obtain ⟨g, i, hseat⟩ := addressable_iff.mp ha
  exact hseat.owns.lt_total

/-- A processor that its group counts has a seat if the group has one for each. -/
theorem addressable_of_lt_total
    (hseats : ∀ grp ∈ groups, grp.count.toNat ≤ Word.popCount grp.mask) (hp : p < total groups) :
    Addressable groups p := by
  obtain ⟨g, grp, hg, hle, hlt⟩ := exists_owns hp
  have := hseats grp (List.mem_of_getElem? hg)
  exact ⟨g, grp, hg, ⟨hle, hlt⟩, by omega⟩

theorem Owns.exists_seated (hp : Owns groups g p) (ha : Addressable groups p) :
    ∃ i, Seated groups g p i := by
  obtain ⟨h, i, hseat⟩ := addressable_iff.mp ha
  obtain rfl := hp.unique hseat.owns
  exact ⟨i, hseat⟩

/-! ## Selections -/

/-- The mask holds exactly the seats that processors of `S` have in group `g`. -/
def Holds (groups : List Group) (g : Nat) (S : Nat → Prop) (mask : Word) : Prop :=
  ∀ i, mask.getLsbD i = true ↔ ∃ p, S p ∧ Seated groups g p i

theorem Holds.congr {S T : Nat → Prop} {mask : Word} (hmask : Holds groups g S mask)
    (hST : ∀ p, Owns groups g p → (S p ↔ T p)) : Holds groups g T mask := by
  intro i
  rw [hmask i]
  constructor
  · rintro ⟨p, hp, hseat⟩
    exact ⟨p, (hST p hseat.owns).mp hp, hseat⟩
  · rintro ⟨p, hp, hseat⟩
    exact ⟨p, (hST p hseat.owns).mpr hp, hseat⟩

theorem holds_zero {S : Nat → Prop} (hS : ∀ p, S p → ¬ Owns groups g p) :
    Holds groups g S 0 := by
  intro i
  constructor
  · intro hset
    simp at hset
  · rintro ⟨p, hp, hseat⟩
    exact absurd hseat.owns (hS p hp)

theorem Holds.unique {S : Nat → Prop} {mask other : Word} (hmask : Holds groups g S mask)
    (hother : Holds groups g S other) : mask = other := by
  apply BitVec.eq_of_getLsbD_eq
  intro i _
  rw [Bool.eq_iff_iff, hmask i, hother i]

open Classical in
theorem exists_holds (groups : List Group) (g : Nat) (S : Nat → Prop) :
    ∃ mask, Holds groups g S mask := by
  refine ⟨(BitVec.iunfoldr
    (fun i _ => ((), decide (∃ p, S p ∧ Seated groups g p i.val))) ()).2, fun i => ?_⟩
  by_cases hi : i < 64
  · rw [BitVec.iunfoldr_getLsbD (fun _ => ()) ⟨i, hi⟩ (fun _ => rfl), decide_eq_true_eq]
  · rw [BitVec.getLsbD_of_ge _ i (Nat.le_of_not_lt hi)]
    constructor
    · intro hset
      cases hset
    · rintro ⟨p, -, hseat⟩
      exact absurd hseat.lt_64 hi

/-- One more processor is one more position. -/
theorem Holds.insert {S : Nat → Prop} {mask : Word} (hmask : Holds groups g S mask)
    (hp : Seated groups g p i) : Holds groups g (fun q => S q ∨ q = p) (mask ||| Word.bit i) := by
  intro j
  rw [Word.getLsbD_or_bit hp.lt_64, Bool.or_eq_true, decide_eq_true_eq, hmask j]
  constructor
  · rintro (⟨q, hq, hseat⟩ | rfl)
    · exact ⟨q, Or.inl hq, hseat⟩
    · exact ⟨p, Or.inr rfl, hp⟩
  · rintro ⟨q, hq | rfl, hseat⟩
    · exact Or.inl ⟨q, hq, hseat⟩
    · exact Or.inr (hp.unique hseat)

/-- A mask that holds a selection is not zero when the selection has a processor with
a seat in the group. -/
theorem Holds.ne_zero {S : Nat → Prop} {mask : Word} (hmask : Holds groups g S mask)
    (hS : S p) (hp : Seated groups g p i) : mask ≠ 0 := by
  rintro rfl
  have hset := (hmask i).mpr ⟨p, hS, hp⟩
  simp at hset

theorem Holds.exists_of_ne_zero {S : Nat → Prop} {mask : Word} (hmask : Holds groups g S mask)
    (hne : mask ≠ 0) : ∃ p i, S p ∧ Seated groups g p i := by
  by_contra hnone
  apply hne
  apply BitVec.eq_of_getLsbD_eq
  intro i _
  rw [show (0 : Word) = 0#64 from rfl, BitVec.getLsbD_zero, Bool.eq_false_iff]
  intro hset
  obtain ⟨p, hp, hseat⟩ := (hmask i).mp hset
  exact hnone ⟨p, i, hp, hseat⟩

end Group

end ThreadAffinity
