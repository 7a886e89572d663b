import ThreadAffinity.Mask

/-!
# Recipes for masks

The ways to make a mask, as data. A recipe can be written down without looking
into it and fails, if it does, only when the mask is made.
-/

namespace ThreadAffinity

namespace Mask

inductive Recipe where
  /-- Nothing is selected. -/
  | empty
  /-- The first word is given. -/
  | word (first : Word)
  /-- One processor is selected. -/
  | processor (only : Nat)
  /-- The processors are selected one after the other. -/
  | processors (inOrder : List Nat)
  /-- What a processor list names is selected. -/
  | list (text : String)
deriving Repr, DecidableEq

def Recipe.build : Recipe → Except Error Mask
  | .empty => .ok Mask.empty
  | .word first => .ok (ofWord first)
  | .processor only => ofProcessor only
  | .processors inOrder => ofProcessors inOrder
  | .list text => ofList text

end Mask

end ThreadAffinity
