import ThreadAffinity.Dialogue

/-!
# Backends

A backend is one way of binding threads to processors. It works through editors:
an editor is opened for a thread, collects processors, applies what it has
collected as often as it is told to, and is closed in the end. How processors are
kept and when the system is asked is the backend's own affair.
-/

namespace ThreadAffinity

/-- A way of binding threads that asks through the interface `I` and keeps its
selections in editors of type `E`. Collecting and applying hand the editor back
whether they succeed or fail. -/
structure Backend (I : Interface) (E : Type) where
  /-- How many processors the system has. -/
  processorCount : Dialogue I Nat
  /-- The thread that is asking. -/
  currentThread : Dialogue I Thread
  /-- Opens an editor for a thread. -/
  openEditor : Thread → Dialogue I (Except Error E)
  /-- Adds a processor to the selection. -/
  select : Nat → E → Dialogue I (Except Error Unit × E)
  /-- Binds the editor's thread to the selection. -/
  apply : E → Dialogue I (Except Error Unit × E)
  /-- Gives back what the editor holds. -/
  close : E → Dialogue I Unit
  /-- The written form of the backend. -/
  describe : String
  /-- The written form of an editor. -/
  describeEditor : E → String

def Backend.through {I J : Interface} {E : Type} (backend : Backend I E)
    (serve : (r : I.Request) → Dialogue J (I.Reply r)) : Backend J E where
  processorCount := backend.processorCount.through serve
  currentThread := backend.currentThread.through serve
  openEditor := fun thread => (backend.openEditor thread).through serve
  select := fun processor editor => (backend.select processor editor).through serve
  apply := fun editor => (backend.apply editor).through serve
  close := fun editor => (backend.close editor).through serve
  describe := backend.describe
  describeEditor := backend.describeEditor

end ThreadAffinity
