import ThreadAffinity.Dialogue
import ThreadAffinity.NativeSet

/-!
# Asking a system with one flat processor numbering

Such a system takes a whole selection at once. The selection is put together in a
native set that the system lends out and takes back. A set on loan carries a
ticket, so that two sets with the same contents can be told apart and each can be
followed from the loan to its return.
-/

namespace ThreadAffinity

namespace Flat

/-- A native set on loan: which loan it is, and what the set holds. -/
structure Loan where
  ticket : Nat
  set : NativeSet
deriving Repr, DecidableEq

inductive Request where
  /-- How many processors there are. -/
  | processorCount
  /-- A set with room for so many processors. -/
  | allocate (capacity : Nat)
  /-- Takes a set back. -/
  | release (loan : Loan)
  /-- The size of a set in bytes. -/
  | measure (loan : Loan)
  /-- Unselects everything in a set. -/
  | clear (loan : Loan)
  /-- Selects a processor in a set. -/
  | select (processor : Nat) (loan : Loan)
  /-- The thread that is asking. -/
  | currentThread
  /-- Binds a thread to what the first `size` bytes of a set select. -/
  | bind (thread : Thread) (loan : Loan) (size : Nat)
deriving Repr, DecidableEq

/-- What such a system replies. Clearing and selecting reply with what the set
holds afterwards. -/
@[reducible] def Reply : Request → Type
  | .processorCount => Nat
  | .allocate _ => Option Loan
  | .release _ => Unit
  | .measure _ => Nat
  | .clear _ => NativeSet
  | .select _ _ => NativeSet
  | .currentThread => Thread
  | .bind _ _ _ => Verdict

@[reducible] def interface : Interface := ⟨Request, Reply⟩

end Flat

end ThreadAffinity
