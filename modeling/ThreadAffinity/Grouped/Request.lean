import ThreadAffinity.Dialogue
import ThreadAffinity.Topology.Group

/-!
# Asking a system with processor groups

Such a system binds a thread to positions of one group at a time. Which groups
there are it writes into a buffer, which has to be made large enough first.
-/

namespace ThreadAffinity

namespace Grouped

structure GroupAffinity where
  group : Nat
  mask : Word
deriving Repr, DecidableEq

/-- What a query for the topology comes back with: the verdict, the bytes written
to the front of the buffer, and the length that was stored. -/
structure QueryReply where
  verdict : Verdict
  written : List UInt8
  length : Nat

inductive Request where
  /-- The topology, into this buffer, with this length stored beforehand. -/
  | query (buffer : List UInt8) (length : Nat)
  /-- Binds a thread to positions of a group. -/
  | bind (thread : Thread) (affinity : GroupAffinity)
  /-- The thread that is asking. -/
  | currentThread
deriving Repr, DecidableEq

@[reducible] def Reply : Request → Type
  | .query _ _ => QueryReply
  | .bind _ _ => Verdict
  | .currentThread => Thread

@[reducible] def interface : Interface := ⟨Request, Reply⟩

/-- A buffer after bytes were written to its front; what does not fit is lost. -/
def overwrite (buffer written : List UInt8) : List UInt8 :=
  written.take buffer.length ++ buffer.drop written.length

@[simp] theorem length_overwrite (buffer written : List UInt8) :
    (overwrite buffer written).length = buffer.length := by
  simp only [overwrite, List.length_append, List.length_take, List.length_drop]
  omega

end Grouped

end ThreadAffinity
