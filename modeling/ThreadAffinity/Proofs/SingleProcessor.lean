import ThreadAffinity.Flat.Backend
import ThreadAffinity.Flat.Script
import ThreadAffinity.Grouped.Backend
import ThreadAffinity.Grouped.Script
import ThreadAffinity.Proofs.Course
import ThreadAffinity.Proofs.Enumeration
import ThreadAffinity.Session

/-!
# One processor, or a mask of one

There are two ways to bind a thread to a single processor: by its number, and by a mask that
selects nothing else. The second way looks whether the mask selects anything, enumerates sixteen
words and goes through what it has found. Nothing of this can be seen from outside. What the
enumeration finds is the one processor (`Mask.Only.members_eq`), so both ways come to opening an
editor, selecting the processor, applying it and closing the editor wherever that ended, and they
are equal as dialogues over any backend (`Backend.bindThreadTo_eq_bindThread`).

Equal dialogues get the same replies from any system, so that no transcript tells the two apart
and no failure ends one but not the other. In particular a session may have each of its bindings
to a single processor made the other way (`Session.run_throughMask`).
-/

namespace ThreadAffinity

/-! ## The mask -/

namespace Mask

variable {mask : Mask} {p : Nat}

/-- The mask selects this processor and no other. -/
def Only (mask : Mask) (p : Nat) : Prop := ∀ q, mask.contains q = decide (q = p)

theorem ofProcessor_only (hp : p < 1024) : ∃ mask, ofProcessor p = .ok mask ∧ mask.Only p := by
  refine ⟨_, insert_of_lt empty hp, fun q => ?_⟩
  rw [contains_adding empty hp, contains_empty, Bool.false_or]
  exact decide_eq_decide.mpr eq_comm

theorem Only.contains (h : mask.Only p) : mask.contains p = true := by
  rw [h p, decide_eq_true_eq]

theorem Only.members_eq (h : mask.Only p) : mask.members = [p] := by
  refine (members_pairwise mask).eq_of_mem_iff (List.pairwise_singleton _ p) fun q => ?_
  rw [mem_members, h q, decide_eq_true_eq, List.mem_singleton]

end Mask

/-! ## The dialogues -/

namespace Backend

variable {I : Interface} {E : Type} {mask : Mask} {p : Nat}

theorem bindThreadTo_eq_bindThread (backend : Backend I E) (thread : Thread) (h : mask.Only p) :
    backend.bindThreadTo thread mask = backend.bindThread thread p := by
  rw [bindThreadTo_of_contains _ _ ⟨p, h.contains⟩, h.members_eq, bindThread_eq_withEditor]

theorem bindCurrentTo_eq_bindCurrent (backend : Backend I E) (h : mask.Only p) :
    backend.bindCurrentTo mask = backend.bindCurrent p := by
  rw [bindCurrentTo, bindCurrent]
  simp only [bindThreadTo_eq_bindThread backend _ h]

/-- Whether a thread is bound to a processor by its number or by a mask, all that is asked and
replied is the same, and so are the result and what becomes of the system. For the calling thread
this comes after asking which one that is. -/
structure Indifferent (backend : Backend I E) (p : Nat) (mask : Mask) : Prop where
  thread : ∀ (thread : Thread) {σ : Type} (system : System I σ) (state : σ),
    (backend.bindThreadTo thread mask).run system state =
      (backend.bindThread thread p).run system state
  current : ∀ {σ : Type} (system : System I σ) (state : σ),
    let caller := backend.currentThread.run system state
    let bound := (backend.bindThread caller.value p).run system caller.state
    let both : Outcome I σ (Except Error Unit) :=
      ⟨bound.value, bound.state, caller.entries ++ bound.entries⟩
    (backend.bindCurrent p).run system state = both ∧
      (backend.bindCurrentTo mask).run system state = both

theorem indifferent (backend : Backend I E) (h : mask.Only p) : backend.Indifferent p mask where
  thread := fun thread σ system state => by rw [bindThreadTo_eq_bindThread backend thread h]
  current := fun system state => by
    rw [bindCurrentTo_eq_bindCurrent backend h, and_self, bindCurrent, Dialogue.run_bind]

end Backend

/-- For each processor below the limit there is a mask of this processor only. On a flat system
as well as on one with groups, whatever they reply and whatever the groups are, it makes no
difference whether the processor or the mask is used. -/
theorem binds_alike_by_processor_and_mask {p : Nat} (hp : p < 1024) :
    ∃ mask, Mask.ofProcessor p = .ok mask ∧ mask.Only p ∧
      (∀ label, (Flat.backend label).Indifferent p mask) ∧
      ∀ label groups, (Grouped.backend label groups).Indifferent p mask := by
  obtain ⟨mask, hmask, honly⟩ := Mask.ofProcessor_only hp
  exact ⟨mask, hmask, honly, fun label => (Flat.backend label).indifferent honly,
    fun label groups => (Grouped.backend label groups).indifferent honly⟩

/-- A flat system refuses processor 1000 in the end, and among the groups of another there is
none that has it. -/
theorem binds_alike_by_processor_and_mask_in_vain :
    let flat : Flat.Script := ⟨8, .caller, [some 1100], [1, 900], none, [.error (.code 22)], 0⟩
    let groups : List Group := [⟨2, 0xa⟩, ⟨0, 0⟩, ⟨3, 0x8000000000000011⟩]
    let grouped : Grouped.Script := ⟨[], .handle 3, (.ok (), 0), (.ok (), 0), true, []⟩
    1000 < 1024 ∧ ∃ mask, Mask.ofProcessor 1000 = .ok mask ∧
      let refused := ((Flat.backend "both").bindThreadTo (.handle 7) mask).run Flat.scripted flat
      let missed :=
        ((Grouped.backend "both" groups).bindCurrentTo mask).run Grouped.scripted grouped
      refused.value = .error (.refused .setAffinity (.code 22)) ∧
        missed.value = .error (.notFound 1000) ∧
        exchangesOf missed.entries = [⟨.currentThread, .handle 3⟩] := by
  intro flat groups grouped
  have hp : 1000 < 1024 := by decide
  obtain ⟨mask, hmask, -, hflat, hgrouped⟩ := binds_alike_by_processor_and_mask hp
  refine ⟨hp, mask, hmask, ?_⟩
  rw [(hflat "both").thread (.handle 7) Flat.scripted flat,
    ((hgrouped "both" groups).current Grouped.scripted grouped).2]
  exact ⟨rfl, rfl, rfl⟩

/-! ## Sessions -/

namespace Session

variable {I : Interface} {E σ : Type}

/-- The step with a mask in place of a processor below the limit. -/
def Step.throughMask : Step → Step
  | .bindThread thread p =>
    if p < processorLimit then .bindThreadTo thread (.processor p) else .bindThread thread p
  | .bindCurrent p => if p < processorLimit then .bindCurrentTo (.processor p) else .bindCurrent p
  | step => step

theorem play_throughMask (setup : Setup I E) (table : Table E) (step : Step) :
    play setup table step.throughMask = play setup table step := by
  cases step with
  | bindThread thread p =>
      rw [Step.throughMask]
      split
      · obtain ⟨mask, hmask, honly⟩ := Mask.ofProcessor_only (p := p) (by assumption)
        simp only [play, withMask, Mask.Recipe.build, hmask,
          setup.backend.bindThreadTo_eq_bindThread thread honly]
      · rfl
  | bindCurrent p =>
      rw [Step.throughMask]
      split
      · obtain ⟨mask, hmask, honly⟩ := Mask.ofProcessor_only (p := p) (by assumption)
        simp only [play, withMask, Mask.Recipe.build, hmask,
          setup.backend.bindCurrentTo_eq_bindCurrent honly]
      · rfl
  | _ => rfl

theorem playAll_throughMask (setup : Setup I E) (system : System I σ) (steps : List Step)
    (table : Table E) (state : σ) :
    playAll setup system (steps.map Step.throughMask) table state =
      playAll setup system steps table state := by
  induction steps generalizing table state with
  | nil => rfl
  | cons step steps ih => simp only [List.map_cons, playAll, play_throughMask, ih]

theorem run_throughMask (setup : Setup I E) (system : System I σ) (steps : List Step) (state : σ) :
    run setup system (steps.map Step.throughMask) state = run setup system steps state := by
  rw [run, playAll_throughMask, run]

end Session

end ThreadAffinity
