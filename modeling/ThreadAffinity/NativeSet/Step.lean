import ThreadAffinity.NativeSet
import ThreadAffinity.Value

/-!
# Working on a native set step by step

A step changes the set or looks at it. No step fails: a processor without a bit
in the set is told apart by the answer alone.
-/

namespace ThreadAffinity

namespace NativeSet

inductive Step where
  /-- Selects a processor. -/
  | insert (processor : Nat)
  /-- Whether a processor is selected. -/
  | contains (processor : Nat)
  /-- Unselects everything. -/
  | clear
  /-- The size of the set in bytes. -/
  | byteSize
  /-- How many processors the set has room for. -/
  | capacity
  /-- The selected processors. -/
  | members
  /-- The words that hold the set. -/
  | words
  /-- The written form of the set. -/
  | describe
deriving Repr, DecidableEq

/-- The answer to a step and the set after it. -/
def play : Step → NativeSet → Value × NativeSet
  | .insert processor, set => (.flag (set.insert processor).1, (set.insert processor).2)
  | .contains processor, set => (.flag (set.contains processor), set)
  | .clear, set => (.unit, set.clear)
  | .byteSize, set => (.number set.byteSize, set)
  | .capacity, set => (.number set.capacity, set)
  | .members, set => (.numbers set.members, set)
  | .words, set => (.words set.words.toList, set)
  | .describe, set => (.text set.describe, set)

def playAll : List Step → NativeSet → List Value
  | [], _ => []
  | step :: steps, set => (play step set).1 :: playAll steps (play step set).2

end NativeSet

end ThreadAffinity
