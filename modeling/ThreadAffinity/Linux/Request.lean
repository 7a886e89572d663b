import ThreadAffinity.Dialogue
import ThreadAffinity.NativeSet

/-!
# Asking a Linux system

Four native calls are all that is needed. Processor sets are plain memory that
belongs to the caller, so making and filling them is nothing the system is asked
for.
-/

namespace ThreadAffinity

namespace Linux

inductive Request where
  /-- How many processors are configured. -/
  | configuredProcessors
  /-- How many threads can run at once, where that is known. -/
  | parallelism
  /-- The thread that is asking. -/
  | currentThread
  /-- Binds a thread to what the first `size` bytes of a block select. -/
  | setAffinity (thread : Thread) (size : Nat) (block : NativeSet)
deriving Repr, DecidableEq

/-- What a Linux system replies. Binding replies with zero or an error number. -/
@[reducible] def Reply : Request → Type
  | .configuredProcessors => Int
  | .parallelism => Option Nat
  | .currentThread => Thread
  | .setAffinity _ _ _ => Int

@[reducible] def interface : Interface := ⟨Request, Reply⟩

end Linux

end ThreadAffinity
