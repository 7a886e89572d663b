import Mathlib.Algebra.Group.Nat.Defs
import Mathlib.Data.List.Induction
import ThreadAffinity.NativeSet.Step

/-!
# The views of a native set

A native set can be looked at in three ways: by what it has room for, by what is in it, and by
listing it. Two of them go by the words of the block. Inserting works exactly for the processors
that have a bit there (`insert_after`), and a processor is contained exactly if it was inserted
since the set was last cleared (`contains_after`).

The capacity and the list go by a number of processors that is reported in 32 bits, and a block of
`2 ^ 26` words has room for one processor more than can be reported. So the views agree for every
capacity up to `2 ^ 32 - 64`, and beyond it they never do (`viewsAgree_iff_exactly`): the last
processor number can be inserted and is contained, but it is not below the capacity and is never
listed.
-/

namespace ThreadAffinity

namespace NativeSet

variable {set : NativeSet} {steps : List Step} {step : Step} {n p : Nat}

/-! ## After some steps -/

def after (steps : List Step) (set : NativeSet) : NativeSet :=
  steps.foldl (fun set step => (play step set).2) set

theorem after_concat (steps : List Step) (step : Step) (set : NativeSet) :
    after (steps ++ [step]) set = (play step (after steps set)).2 := by
  rw [after, List.foldl_append]
  rfl

theorem size_words_after (steps : List Step) (set : NativeSet) :
    (after steps set).words.size = set.words.size := by
  induction steps using List.reverseRecOn with
  | nil => rfl
  | append_singleton steps step ih =>
      rw [after_concat, ← ih]
      cases step with
      | insert q => exact size_words_insert _ q
      | clear => exact size_words_clear _
      | _ => rfl

/-- The processor was inserted, with success, and the set was not cleared since. -/
def Inserted (set : NativeSet) (steps : List Step) (p : Nat) : Prop :=
  ∃ before later, steps = before ++ .insert p :: later ∧
    ((after before set).insert p).1 = true ∧ .clear ∉ later

theorem not_inserted_nil (set : NativeSet) (p : Nat) : ¬ Inserted set [] p := by
  rintro ⟨before, later, hsteps, -⟩
  simp at hsteps

theorem inserted_concat : Inserted set (steps ++ [step]) p ↔
    step = .insert p ∧ ((after steps set).insert p).1 = true ∨
      step ≠ .clear ∧ Inserted set steps p := by
  constructor
  · rintro ⟨before, later, hsteps, hfits, hclear⟩
    rcases List.eq_nil_or_concat later with rfl | ⟨later, last, rfl⟩
    · obtain ⟨rfl, hlast⟩ := List.append_inj' hsteps rfl
      exact Or.inl ⟨List.singleton_inj.mp hlast, hfits⟩
    · have hsteps : steps ++ [step] = (before ++ .insert p :: later) ++ [last] := by
        simpa using hsteps
      obtain ⟨rfl, hlast⟩ := List.append_inj' hsteps rfl
      obtain rfl := List.singleton_inj.mp hlast
      simp only [List.concat_eq_append, List.mem_append, List.mem_singleton, not_or] at hclear
      exact Or.inr ⟨Ne.symm hclear.2, before, later, rfl, hfits, hclear.1⟩
  · rintro (⟨rfl, hfits⟩ | ⟨hne, before, later, rfl, hfits, hclear⟩)
    · exact ⟨steps, [], rfl, hfits, List.not_mem_nil⟩
    · refine ⟨before, later ++ [step], by simp, hfits, fun hmem => ?_⟩
      rcases List.mem_append.mp hmem with hlater | hlast
      · exact hclear hlater
      · exact hne (List.mem_singleton.mp hlast).symm

/-- What is contained was inserted, with success, since the set was last cleared. -/
theorem contains_after (n : Nat) (steps : List Step) (p : Nat) :
    (after steps (ofCapacity n)).contains p = true ↔ Inserted (ofCapacity n) steps p := by
  induction steps using List.reverseRecOn with
  | nil =>
      refine iff_of_false ?_ (not_inserted_nil _ p)
      rw [after, List.foldl_nil, contains_ofCapacity]
      exact Bool.false_ne_true
  | append_singleton steps step ih =>
      rw [after_concat, inserted_concat, ← ih]
      cases step with
      | insert q =>
          rw [play, contains_insert, Bool.or_eq_true, Bool.and_eq_true, decide_eq_true_eq,
            Step.insert.injEq, or_comm]
          refine or_congr ?_ (and_iff_right nofun).symm
          constructor
          · rintro ⟨hfits, rfl⟩
            exact ⟨rfl, hfits⟩
          · rintro ⟨rfl, hfits⟩
            exact ⟨hfits, rfl⟩
      | clear => simp [play]
      | _ => simp [play]

/-! ## Room, capacity and list -/

theorem insert_after (n : Nat) (steps : List Step) (p : Nat) :
    ((after steps (ofCapacity n)).insert p).1 = true ↔ p < 64 * ((n + 63) / 64) := by
  rw [insert, decide_eq_true_eq, Words.room, size_words_after, ofCapacity, Words.size_zeros]

theorem lt_of_contains_after (h : (after steps (ofCapacity n)).contains p = true) :
    p < 64 * ((n + 63) / 64) := by
  have hroom := Words.lt_room_of_test h
  rwa [Words.room, size_words_after, ofCapacity, Words.size_zeros] at hroom

theorem capacity_after (hn : n < 2 ^ 32) (steps : List Step) :
    (after steps (ofCapacity n)).capacity = min (64 * ((n + 63) / 64)) 4294967295 := by
  rw [capacity, size_words_after, ofCapacity, Words.size_zeros, capacityLimit]
  omega

theorem mem_members : p ∈ set.members ↔ p < set.capacity ∧ set.contains p = true := by
  rw [members, List.mem_filter, List.mem_range]

theorem members_pairwise (set : NativeSet) : set.members.Pairwise (· < ·) :=
  List.pairwise_lt_range.filter _

/-- Whatever is contained is listed, unless it is the last processor number of all. -/
theorem mem_members_after (hn : n < 2 ^ 32) (steps : List Step) (p : Nat) :
    p ∈ (after steps (ofCapacity n)).members ↔
      (after steps (ofCapacity n)).contains p = true ∧ p ≠ 4294967295 := by
  rw [mem_members, capacity_after hn, and_comm]
  refine and_congr_right fun hcontains => ?_
  have hlt := lt_of_contains_after hcontains
  omega

/-! ## Agreement -/

/-- The views of a set made for `n` processors agree: whatever was done with it, what can be
inserted is what lies below the capacity, what is contained was inserted and not cleared since,
and what is listed, in increasing order, is what is contained. -/
structure ViewsAgree (n : Nat) : Prop where
  insert_iff : ∀ steps, ∀ p < 2 ^ 32, ((after steps (ofCapacity n)).insert p).1 = true ↔
    p < (after steps (ofCapacity n)).capacity
  contains_iff : ∀ steps, ∀ p < 2 ^ 32, (after steps (ofCapacity n)).contains p = true ↔
    Inserted (ofCapacity n) steps p
  listed_iff : ∀ steps, ∀ p < 2 ^ 32, p ∈ (after steps (ofCapacity n)).members ↔
    (after steps (ofCapacity n)).contains p = true
  listed_increasing : ∀ steps, (after steps (ofCapacity n)).members.Pairwise (· < ·)

theorem viewsAgree_of_le (hn : n ≤ 2 ^ 32 - 64) : ViewsAgree n where
  insert_iff := fun steps p _ => by
    rw [insert_after, capacity_after (by omega)]
    omega
  contains_iff := fun steps p _ => contains_after n steps p
  listed_iff := fun steps p _ => by
    rw [mem_members_after (by omega)]
    refine and_iff_left_of_imp ?_
    rintro hcontains rfl
    have hlt := lt_of_contains_after hcontains
    omega
  listed_increasing := fun steps => members_pairwise _

/-- The last processor number of all gets a bit that no view but `contains` knows of. -/
theorem insert_last (hbig : 2 ^ 32 - 64 < n) (hn : n < 2 ^ 32) (steps : List Step) :
    let set := after steps (ofCapacity n)
    set.capacity = 4294967295 ∧ (set.insert 4294967295).1 = true ∧
      (set.insert 4294967295).2.contains 4294967295 = true ∧
      4294967295 ∉ (set.insert 4294967295).2.members := by
  intro set
  have hcapacity : set.capacity = 4294967295 := by
    rw [capacity_after hn]
    omega
  have hfits : (set.insert 4294967295).1 = true := by
    rw [insert_after]
    omega
  refine ⟨hcapacity, hfits, ?_, fun hlisted => ?_⟩
  · rw [contains_insert, hfits]
    simp
  · have hlt := (mem_members.mp hlisted).1
    rw [capacity_insert, hcapacity] at hlt
    exact Nat.lt_irrefl _ hlt

theorem not_viewsAgree_of_lt (hbig : 2 ^ 32 - 64 < n) (hn : n < 2 ^ 32) : ¬ ViewsAgree n := by
  intro hagree
  obtain ⟨hcapacity, hfits, -⟩ := insert_last hbig hn []
  have hlt := (hagree.insert_iff [] 4294967295 (by decide)).mp hfits
  rw [hcapacity] at hlt
  exact Nat.lt_irrefl _ hlt

/-- The views of a set agree exactly up to a capacity of `2 ^ 32 - 64`. Beyond it what they come
to differs in the last processor number alone. -/
theorem viewsAgree_iff_exactly (hn : n < 2 ^ 32) :
    (ViewsAgree n ↔ n ≤ 2 ^ 32 - 64) ∧
      ∀ steps p, let set := after steps (ofCapacity n)
        set.capacity = min (64 * ((n + 63) / 64)) 4294967295 ∧
        ((set.insert p).1 = true ↔ p < 64 * ((n + 63) / 64)) ∧
        (set.contains p = true ↔ Inserted (ofCapacity n) steps p) ∧
        set.members.Pairwise (· < ·) ∧
        (p ∈ set.members ↔ set.contains p = true ∧ p ≠ 4294967295) := by
  refine ⟨⟨fun hagree => ?_, viewsAgree_of_le⟩, fun steps p => ?_⟩
  · by_contra hbig
    exact not_viewsAgree_of_lt (Nat.lt_of_not_le hbig) hn hagree
  · exact ⟨capacity_after hn steps, insert_after n steps p, contains_after n steps p,
      members_pairwise _, mem_members_after hn steps p⟩

/-- A set with room in its last word for more than was asked for. -/
theorem viewsAgree_iff_exactly_after_clear :
    129 < 2 ^ 32 ∧ ViewsAgree 129 ∧
      let steps : List Step := [.insert 5, .clear, .insert 191, .insert 192]
      let set := after steps (ofCapacity 129)
      set.capacity = 192 ∧ ((set.insert 191).1 = true ↔ 191 < 192) ∧
        (set.contains 191 = true ↔ Inserted (ofCapacity 129) steps 191) ∧
        set.members.Pairwise (· < ·) ∧
        (191 ∈ set.members ↔ set.contains 191 = true ∧ 191 ≠ 4294967295) := by
  obtain ⟨hagree, hviews⟩ := viewsAgree_iff_exactly (n := 129) (by decide)
  exact ⟨by decide, hagree.mpr (by decide), hviews _ 191⟩

/-- A set for all processor numbers of 32 bits but the last has a bit for the last one too, which
is inserted and contained, but neither below the capacity nor listed. -/
theorem not_viewsAgree_of_full_capacity :
    ¬ ViewsAgree 4294967295 ∧
      let set := ofCapacity 4294967295
      playAll [.capacity, .insert 4294967295, .contains 4294967295] set =
          [.number 4294967295, .flag true, .flag true] ∧
        4294967295 ∉ (set.insert 4294967295).2.members := by
  refine ⟨not_viewsAgree_of_lt (by decide) (by decide), ?_⟩
  intro set
  obtain ⟨hcapacity, hfits, hcontains, hlisted⟩ :=
    insert_last (n := 4294967295) (by decide) (by decide) []
  replace hcapacity : set.capacity = 4294967295 := hcapacity
  replace hfits : (set.insert 4294967295).1 = true := hfits
  replace hcontains : (set.insert 4294967295).2.contains 4294967295 = true := hcontains
  refine ⟨?_, hlisted⟩
  simp only [playAll, play, hcapacity, hfits, hcontains]

end NativeSet

end ThreadAffinity
