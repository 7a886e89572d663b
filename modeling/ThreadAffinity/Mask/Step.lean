import ThreadAffinity.Mask.Recipe
import ThreadAffinity.Value

/-!
# Working on a mask step by step

A step changes the mask or looks at it, or both. A step that fails leaves the
mask as it was.
-/

namespace ThreadAffinity

namespace Mask

inductive Step where
  /-- Selects a processor. -/
  | insert (processor : Nat)
  /-- Takes a processor out. -/
  | remove (processor : Nat)
  /-- Whether a processor is selected. -/
  | contains (processor : Nat)
  /-- How many processors are selected. -/
  | size
  /-- Whether no processor is selected. -/
  | isEmpty
  /-- The selected processors. -/
  | members
  /-- The words that hold the mask. -/
  | words
  /-- The mask as a processor list. -/
  | display
  /-- Whether reading that list gives the mask back. -/
  | reread
  /-- Whether another mask is the same. -/
  | equals (other : Recipe)
  /-- Replaces the mask by another. -/
  | assign (other : Recipe)
  /-- The written form of the mask. -/
  | describe
deriving Repr, DecidableEq

/-- The answer to a step and the mask after it. -/
def play : Step → Mask → Answer × Mask
  | .insert processor, mask =>
    match mask.insert processor with
    | .ok changed => (.ok .unit, changed)
    | .error error => (.error error, mask)
  | .remove processor, mask => (.ok (.flag (mask.remove processor).1), (mask.remove processor).2)
  | .contains processor, mask => (.ok (.flag (mask.contains processor)), mask)
  | .size, mask => (.ok (.number mask.size), mask)
  | .isEmpty, mask => (.ok (.flag mask.isEmpty), mask)
  | .members, mask => (.ok (.numbers mask.members), mask)
  | .words, mask => (.ok (.words mask.words.toList), mask)
  | .display, mask => (.ok (.text mask.display), mask)
  | .reread, mask => (.map (fun other => .flag (other = mask)) (ofList mask.display), mask)
  | .equals recipe, mask => (.map (fun other => .flag (other = mask)) recipe.build, mask)
  | .assign recipe, mask =>
    match recipe.build with
    | .ok other => (.ok .unit, other)
    | .error error => (.error error, mask)
  | .describe, mask => (.ok (.text mask.describe), mask)

/-- The answers to a list of steps, each with the mask after the step. -/
def playAll : List Step → Mask → List (Answer × Mask)
  | [], _ => []
  | step :: steps, mask => play step mask :: playAll steps (play step mask).2

def after (steps : List Step) (mask : Mask) : Mask :=
  steps.foldl (fun mask step => (play step mask).2) mask

end Mask

end ThreadAffinity
