import ThreadAffinity.Mask.Recipe
import ThreadAffinity.Thread

/-!
# Steps of a session

What a user of a backend can do, one thing at a time. Editors are told apart by
numbers that the user chooses.
-/

namespace ThreadAffinity

namespace Session

inductive Step where
  /-- How many processors there are. -/
  | processorCount
  /-- The calling thread. -/
  | currentThread
  /-- The written form of the backend. -/
  | describe
  /-- Binds a thread to one processor. -/
  | bindThread (thread : Thread) (processor : Nat)
  /-- Binds a thread to a mask that is made first. -/
  | bindThreadTo (thread : Thread) (recipe : Mask.Recipe)
  /-- Binds the calling thread to one processor. -/
  | bindCurrent (processor : Nat)
  /-- Binds the calling thread to a mask that is made first. -/
  | bindCurrentTo (recipe : Mask.Recipe)
  /-- Opens an editor for a thread, in place of the one that has the number. -/
  | openEditor (id : Int) (thread : Thread)
  /-- The same for the calling thread. -/
  | openCurrent (id : Int)
  /-- Selects a processor in an editor. -/
  | select (id : Int) (processor : Nat)
  /-- Applies what an editor has collected. -/
  | apply (id : Int)
  /-- The written form of an editor. -/
  | describeEditor (id : Int)
  /-- Closes an editor, if it is open. -/
  | close (id : Int)
  /-- Binds the calling thread to one processor with the standard backend and says
  whether that worked. -/
  | tryBind (processor : Nat)
  /-- The same for a mask that is made first. -/
  | tryBindTo (recipe : Mask.Recipe)
deriving Repr, DecidableEq

end Session

end ThreadAffinity
