import ThreadAffinity.Flat.Editor

/-!
# What a flat editor can do in one move

Opening an editor, selecting and applying can each only come to one of a few ends. An
end says what the system was asked and replied, what the result is and what becomes of
the editor. `Opened`, `Selected` and `Applied` list the ends, and `openFor_ends`,
`select_ends` and `apply_ends` say that there are no others. A reply that decides what the
editor holds afterwards is the system's answer in the state it was in just then.
-/

namespace ThreadAffinity

namespace Flat

namespace Editor

variable {σ : Type}

def holding (e : Editor) (set : NativeSet) : Editor := ⟨e.thread, ⟨e.loan.ticket, set⟩⟩

/-- The ends of opening: no set was lent, one that is too small, or one that will do. -/
inductive Opened (system : System interface σ) (thread : Thread) :
    Option Loan → List (Entry interface) → Except Error Editor → Prop
  | notLent : Opened system thread none [.call (.allocate processorLimit) none]
      (.error (.setAllocation processorLimit))
  | tooSmall (loan : Loan) (h : loan.set.capacity < processorLimit) :
      Opened system thread (some loan)
        [.call (.allocate processorLimit) (some loan), .call (.release loan) ()]
        (.error (.setAllocation processorLimit))
  | opened (loan : Loan) (h : processorLimit ≤ loan.set.capacity) (now : σ) :
      Opened system thread (some loan)
        [.call (.allocate processorLimit) (some loan),
          .call (.clear loan) (system.answer (.clear loan) now).1]
        (.ok ⟨thread, ⟨loan.ticket, (system.answer (.clear loan) now).1⟩⟩)

/-- The ends of selecting: the processor is beyond the limit, or it goes into the set. -/
inductive Selected (system : System interface σ) (e : Editor) (p : Nat) :
    List (Entry interface) → Except Error Unit × Editor → Prop
  | beyond (h : processorLimit ≤ p) : Selected system e p [] (.error (.beyondLimit p), e)
  | taken (h : p < processorLimit) (now : σ) :
      Selected system e p
        [.event (.processorAdded e.thread p),
          .call (.select p e.loan) (system.answer (.select p e.loan) now).1]
        (.ok (), e.holding (system.answer (.select p e.loan) now).1)

/-- The ends of applying: the system refuses the whole set, or it grants it. -/
inductive Applied (e : Editor) : List (Entry interface) → Except Error Unit × Editor → Prop
  | refused (size : Nat) (cause : Refusal) :
      Applied e
        [.call (.measure e.loan) size, .call (.bind e.thread e.loan size) (.error cause)]
        (.error (.refused .setAffinity cause), e)
  | granted (size : Nat) :
      Applied e
        [.call (.measure e.loan) size, .call (.bind e.thread e.loan size) (.ok ()),
          .event (.affinityApplied e.thread e.loan.set.members)]
        (.ok (), e)

theorem openFor_ends (thread : Thread) (system : System interface σ) (state : σ) :
    ∃ entries value after,
      (openFor thread).run system state = ⟨value, after, entries⟩ ∧
        Opened system thread (system.answer (.allocate processorLimit) state).1 entries value := by
  refine ⟨_, _, _, rfl, ?_⟩
  cases (system.answer (.allocate processorLimit) state).1 with
  | none => exact .notLent
  | some loan =>
      simp only
      split
      · exact .tooSmall loan (by assumption)
      · exact .opened loan (Nat.le_of_not_lt (by assumption)) _

theorem select_ends (e : Editor) (p : Nat) (system : System interface σ) (state : σ) :
    ∃ entries result kept after,
      (e.select p).run system state = ⟨(result, kept), after, entries⟩ ∧
        Selected system e p entries (result, kept) := by
  unfold select
  split
  · exact ⟨_, _, _, _, rfl, .beyond (by assumption)⟩
  · exact ⟨_, _, _, _, rfl, .taken (Nat.lt_of_not_le (by assumption)) state⟩

theorem apply_ends (e : Editor) (system : System interface σ) (state : σ) :
    ∃ entries result kept after,
      e.apply.run system state = ⟨(result, kept), after, entries⟩ ∧
        Applied e entries (result, kept) := by
  refine ⟨_, _, _, _, rfl, ?_⟩
  simp only [Dialogue.run_ask]
  cases (system.answer _ (system.answer (.measure e.loan) state).2).1 with
  | error cause => exact .refused _ cause
  | ok granted => exact .granted _

end Editor

end Flat

end ThreadAffinity
