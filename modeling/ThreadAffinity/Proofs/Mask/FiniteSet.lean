import Mathlib.Data.Finset.Basic
import Mathlib.Data.Finset.Filter
import Mathlib.Data.Finset.Lattice.Lemmas
import Mathlib.Data.Finset.Range
import ThreadAffinity.Mask.Step

/-!
# Masks as finite sets

A mask stands for the finite set of the processors it selects. Everything that can be
done with masks is said once more of sets here: `Recipe.finset` makes a set, or fails, as
`Recipe.build` makes a mask, and `Step.onFinset` is what a step does to a set.

The two sides stay together. `agree_build` is the start, `Denotes.play` the step and
`Denotes.after` a whole list of steps. What can be seen of a mask is then read off its
set (`Denotes.refines`). Masks with the same set are equal, so nothing is left in a mask
of how it came about.
-/

namespace ThreadAffinity

namespace Mask

/-- The mask selects exactly the members of the set. -/
def Denotes (mask : Mask) (s : Finset Nat) : Prop := ∀ p, mask.contains p = true ↔ p ∈ s

variable {mask other : Mask} {s t : Finset Nat} {p : Nat}

theorem denotes_empty : empty.Denotes ∅ := by
  intro p
  simp

theorem Denotes.lt (h : mask.Denotes s) (hp : p ∈ s) : p < processorLimit :=
  lt_of_contains ((h p).mpr hp)

theorem Denotes.contains_eq (h : mask.Denotes s) (p : Nat) : mask.contains p = decide (p ∈ s) := by
  rw [Bool.eq_iff_iff, decide_eq_true_eq]
  exact h p

theorem Denotes.eq_iff (h : mask.Denotes s) (hother : other.Denotes t) : mask = other ↔ s = t := by
  constructor
  · rintro rfl
    ext p
    rw [← h p, ← hother p]
  · rintro rfl
    exact ext_contains fun p => by rw [h.contains_eq, hother.contains_eq]

/-! ## One processor in, one out -/

theorem Denotes.adding (h : mask.Denotes s) (hp : p < processorLimit) :
    (mask.adding p).Denotes (s ∪ {p}) := by
  intro q
  rw [contains_adding mask hp, Bool.or_eq_true, decide_eq_true_eq, h q, Finset.mem_union,
    Finset.mem_singleton]
  exact or_congr Iff.rfl eq_comm

theorem Denotes.remove (h : mask.Denotes s) (p : Nat) : (mask.remove p).2.Denotes (s \ {p}) := by
  intro q
  rw [contains_remove, Bool.and_eq_true, decide_eq_true_eq, h q, Finset.mem_sdiff,
    Finset.mem_singleton]
  exact and_congr Iff.rfl ne_comm

/-- A processor that is selected already changes nothing. -/
theorem Denotes.adding_eq_self (h : mask.Denotes s) (hp : p ∈ s) : mask.adding p = mask := by
  rw [(h.adding (h.lt hp)).eq_iff h]
  exact Finset.union_eq_left.mpr (Finset.singleton_subset_iff.mpr hp)

/-! ## Making a mask -/

/-- The set of some processors, unless one of them is beyond the limit. -/
def finsetOf (processors : List Nat) : Except Error (Finset Nat) :=
  match processors.find? (processorLimit ≤ ·) with
  | some p => .error (.beyondLimit p)
  | none => .ok processors.toFinset

def Recipe.finset : Recipe → Except Error (Finset Nat)
  | .empty => .ok ∅
  | .word first => .ok ((Finset.range 64).filter (first.getLsbD · = true))
  | .processor only => finsetOf [only]
  | .processors inOrder => finsetOf inOrder
  | .list text =>
    match CpuList.parse text with
    | .error fault => .error (.invalidList fault)
    | .ok items =>
      match CpuList.nextFrom? items processorLimit with
      | some p => .error (.beyondLimit p)
      | none => .ok ((Finset.range processorLimit).filter (CpuList.names items · = true))

/-- Making a mask and making a set come to the same. -/
inductive Agree : Except Error Mask → Except Error (Finset Nat) → Prop
  | failed (error : Error) : Agree (.error error) (.error error)
  | made {mask : Mask} {s : Finset Nat} (h : mask.Denotes s) : Agree (.ok mask) (.ok s)

theorem denotes_ofWord (first : Word) :
    (ofWord first).Denotes ((Finset.range 64).filter (first.getLsbD · = true)) := by
  intro p
  rw [contains_eq_test, Finset.mem_filter, Finset.mem_range, ofWord, Words.test]
  rcases Nat.lt_or_ge p 64 with hlow | hhigh
  · have hdiv : p / 64 = 0 := by omega
    have hmod : p % 64 = p := by omega
    have hsize : 0 < (Words.zeros maskWords).size := by
      rw [Words.size_zeros]
      decide
    rw [hdiv, hmod, Array.getElem?_setIfInBounds_self_of_lt hsize]
    exact (and_iff_right hlow).symm
  · have hne : 0 ≠ p / 64 := by omega
    have hzero := Words.test_zeros maskWords p
    rw [Words.test] at hzero
    rw [Array.getElem?_setIfInBounds_ne hne, hzero]
    simp [Nat.not_lt.mpr hhigh]

theorem finsetOf_cons_of_lt (hp : p < processorLimit) (processors : List Nat) :
    finsetOf (p :: processors) = (finsetOf processors).map ({p} ∪ ·) := by
  have hsmall : decide (processorLimit ≤ p) = false := decide_eq_false (Nat.not_le.mpr hp)
  rw [finsetOf, List.find?_cons, hsmall, finsetOf]
  cases processors.find? (processorLimit ≤ ·) with
  | none =>
      change _ = Except.ok _
      rw [List.toFinset_cons, Finset.insert_eq]
  | some q => rfl

theorem finsetOf_cons_of_ge (hp : processorLimit ≤ p) (processors : List Nat) :
    finsetOf (p :: processors) = .error (.beyondLimit p) := by
  rw [finsetOf, List.find?_cons, decide_eq_true hp]

/-- Selecting one processor after the other gathers them, on top of what is there. -/
theorem agree_foldlM_insert (h : mask.Denotes s) (processors : List Nat) :
    Agree (processors.foldlM insert mask) ((finsetOf processors).map (s ∪ ·)) := by
  induction processors generalizing mask s with
  | nil =>
      have hkept : mask.Denotes (s ∪ [].toFinset) := by
        rwa [List.toFinset_nil, Finset.union_empty]
      exact .made hkept
  | cons p processors ih =>
      rw [List.foldlM_cons]
      rcases Nat.lt_or_ge p processorLimit with hlt | hge
      · rw [insert_of_lt mask hlt, finsetOf_cons_of_lt hlt]
        have hrest := ih (h.adding hlt)
        cases hset : finsetOf processors with
        | error error =>
            rw [hset] at hrest
            exact hrest
        | ok gathered =>
            rw [hset] at hrest
            simp only [Except.map, Finset.union_assoc] at hrest ⊢
            exact hrest
      · rw [insert_of_ge mask hge, finsetOf_cons_of_ge hge]
        exact .failed _

theorem agree_ofProcessors (processors : List Nat) :
    Agree (ofProcessors processors) (finsetOf processors) := by
  have hfold := agree_foldlM_insert denotes_empty processors
  cases hset : finsetOf processors with
  | error error =>
      rw [hset] at hfold
      exact hfold
  | ok gathered =>
      rw [hset] at hfold
      simp only [Except.map, Finset.empty_union] at hfold
      exact hfold

/-- Whatever the order, the processors that a mask selects make this mask. -/
theorem ofProcessors_eq_ok {processors : List Nat}
    (h : ∀ p, p ∈ processors ↔ mask.contains p = true) : ofProcessors processors = .ok mask := by
  have hbelow : processors.find? (processorLimit ≤ ·) = none := by
    rw [List.find?_eq_none]
    intro p hp
    have hlt := lt_of_contains ((h p).mp hp)
    simpa using hlt
  have hmade := agree_ofProcessors processors
  rw [finsetOf, hbelow] at hmade
  generalize ofProcessors processors = built at hmade ⊢
  cases hmade with
  | made hdenotes =>
      refine congrArg Except.ok (ext_contains fun p => ?_)
      rw [Bool.eq_iff_iff, hdenotes p, List.mem_toFinset, h p]

theorem finsetOf_filter_range (names : Nat → Bool) :
    finsetOf ((List.range processorLimit).filter names) =
      .ok ((Finset.range processorLimit).filter (names · = true)) := by
  have hnone : ((List.range processorLimit).filter names).find? (processorLimit ≤ ·) = none := by
    rw [List.find?_eq_none]
    intro p hp
    have hlt := List.mem_range.mp (List.mem_of_mem_filter hp)
    simpa using hlt
  rw [finsetOf, hnone]
  refine congrArg Except.ok (Finset.ext fun p => ?_)
  rw [List.mem_toFinset, List.mem_filter, List.mem_range, Finset.mem_filter, Finset.mem_range]

/-- A recipe makes the mask of its set, and fails as the set does. -/
theorem agree_build (recipe : Recipe) : Agree recipe.build recipe.finset := by
  cases recipe with
  | empty => exact .made denotes_empty
  | word first => exact .made (denotes_ofWord first)
  | processor only =>
      have hone := agree_ofProcessors [only]
      simp only [ofProcessors, List.foldlM_cons, List.foldlM_nil, bind_pure] at hone
      exact hone
  | processors inOrder => exact agree_ofProcessors inOrder
  | list text =>
      simp only [Recipe.build, ofList, Recipe.finset]
      cases CpuList.parse text with
      | error fault => exact .failed _
      | ok items =>
          simp only
          cases CpuList.nextFrom? items processorLimit with
          | some p => exact .failed _
          | none =>
              have hnamed :=
                agree_ofProcessors ((List.range processorLimit).filter (CpuList.names items))
              rwa [finsetOf_filter_range] at hnamed

/-! ## Working on it -/

/-- What a step does to a set. Steps that only look leave it as it is. -/
def Step.onFinset : Step → Finset Nat → Finset Nat
  | .insert p, s => if p < processorLimit then s ∪ {p} else s
  | .remove p, s => s \ {p}
  | .assign recipe, s =>
    match recipe.finset with
    | .ok t => t
    | .error _ => s
  | _, s => s

def finsetAfter (steps : List Step) (s : Finset Nat) : Finset Nat :=
  steps.foldl (fun s step => step.onFinset s) s

theorem Denotes.play (h : mask.Denotes s) (step : Step) :
    (play step mask).2.Denotes (step.onFinset s) := by
  cases step with
  | insert p =>
      simp only [Mask.play, Step.onFinset]
      rcases Nat.lt_or_ge p processorLimit with hlt | hge
      · rw [insert_of_lt mask hlt, if_pos hlt]
        exact h.adding hlt
      · rw [insert_of_ge mask hge, if_neg (Nat.not_lt.mpr hge)]
        exact h
  | remove p => exact h.remove p
  | assign recipe =>
      have hagree := agree_build recipe
      simp only [Mask.play, Step.onFinset]
      generalize recipe.build = built at hagree ⊢
      generalize recipe.finset = asked at hagree ⊢
      cases hagree with
      | failed error => exact h
      | made hmade => exact hmade
  | _ => exact h

theorem Denotes.after (h : mask.Denotes s) (steps : List Step) :
    (after steps mask).Denotes (finsetAfter steps s) := by
  induction steps generalizing mask s with
  | nil => exact h
  | cons step steps ih => exact ih (h.play step)

/-! ## Looking at it -/

/-- All that can be seen of a mask is told by its set: what is in it, how it answers to a
change and what it becomes, its words, and which masks it equals. -/
structure Refines (mask : Mask) (s : Finset Nat) : Prop where
  below_limit : ∀ p ∈ s, p < 1024
  contains : ∀ p, Mask.play (.contains p) mask = (.ok (.flag (decide (p ∈ s))), mask)
  insert_beyond : ∀ p, 1024 ≤ p →
    Mask.play (.insert p) mask = (.error (.outOfRange p 1023), mask)
  insert_within : ∀ p < 1024, ∃ changed, Mask.play (.insert p) mask = (.ok .unit, changed) ∧
    changed.Denotes (s ∪ {p}) ∧ Mask.play (.insert p) changed = (.ok .unit, changed)
  remove : ∀ p, ∃ changed,
    Mask.play (.remove p) mask = (.ok (.flag (decide (p ∈ s))), changed) ∧
      changed.Denotes (s \ {p})
  words : mask.words.size = 16 ∧ ∀ n < 16, ∃ word, mask.words[n]? = some word ∧
    ∀ b < 64, (word.getLsbD b = true ↔ 64 * n + b ∈ s)
  eq_iff : ∀ other t, Denotes other t → (mask = other ↔ s = t)

theorem Denotes.refines (h : mask.Denotes s) : mask.Refines s where
  below_limit := fun _ hp => h.lt hp
  contains := fun p => by
    rw [← h.contains_eq p]
    rfl
  insert_beyond := fun p hp => by
    rw [Mask.play, insert_of_ge mask hp]
    rfl
  insert_within := fun p hp => by
    have hadded := h.adding hp
    have hmem : p ∈ s ∪ {p} := Finset.mem_union_right s (Finset.mem_singleton_self p)
    refine ⟨mask.adding p, ?_, hadded, ?_⟩
    · rw [Mask.play, insert_of_lt mask hp]
    · rw [Mask.play, insert_of_lt (mask.adding p) hp, hadded.adding_eq_self hmem]
  remove := fun p => by
    refine ⟨(mask.remove p).2, ?_, h.remove p⟩
    rw [← h.contains_eq p, ← remove_fst]
    rfl
  words := by
    refine ⟨mask.size_words, fun n hn => ?_⟩
    have hsize : n < mask.words.size := by
      rw [mask.size_words]
      exact hn
    refine ⟨mask.words[n], Array.getElem?_eq_getElem hsize, fun b hb => ?_⟩
    have hdiv : (64 * n + b) / 64 = n := by omega
    have hmod : (64 * n + b) % 64 = b := by omega
    rw [← h, contains_eq_test, Words.test, hdiv, hmod, Array.getElem?_eq_getElem hsize]
  eq_iff := fun _ _ hother => h.eq_iff hother

/-- Making a mask fails exactly as making its set does. A mask that was made denotes the
set that was asked for, and after any list of steps it still cannot be told apart from
what the same steps make of the set. -/
theorem build_refines_finset (recipe : Recipe) (steps : List Step) :
    (∀ error, recipe.build = .error error ↔ recipe.finset = .error error) ∧
      ∀ mask, recipe.build = .ok mask → ∃ s, recipe.finset = .ok s ∧
        (after steps mask).Denotes (finsetAfter steps s) ∧
        (after steps mask).Refines (finsetAfter steps s) := by
  have hagree := agree_build recipe
  generalize recipe.build = built at hagree ⊢
  generalize recipe.finset = asked at hagree ⊢
  cases hagree with
  | failed error => exact ⟨fun _ => by simp, nofun⟩
  | made hmade =>
      refine ⟨fun _ => ⟨nofun, nofun⟩, ?_⟩
      intro mask hmask
      obtain rfl := Except.ok.inj hmask
      exact ⟨_, rfl, hmade.after steps, (hmade.after steps).refines⟩

/-- A processor that comes and goes again and one that is refused leave nothing behind. -/
theorem build_refines_finset_after_detour :
    Recipe.build (.word 8) = .ok (ofWord 8) ∧
      (after [.insert 700, .insert 5, .insert 64, .remove 5, .insert 1024] (ofWord 8)).Refines
        {3, 64, 700} := by
  obtain ⟨s, hset, -, hrefines⟩ := (build_refines_finset (.word 8)
    [.insert 700, .insert 5, .insert 64, .remove 5, .insert 1024]).2 (ofWord 8) rfl
  have hafter : finsetAfter [.insert 700, .insert 5, .insert 64, .remove 5, .insert 1024] s =
      {3, 64, 700} := by
    rw [← Except.ok.inj hset]
    decide
  rw [hafter] at hrefines
  exact ⟨rfl, hrefines⟩

end Mask

end ThreadAffinity
