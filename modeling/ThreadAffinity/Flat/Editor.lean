import ThreadAffinity.Flat.Request

/-!
# Collecting a selection in one native set

An editor borrows a set when it is opened and gives it back when it is closed. In
between the set is its own: every processor is put into it, and applying hands
over the whole set, so the last application decides and repeats all processors
collected before.
-/

namespace ThreadAffinity

namespace Flat

structure Editor where
  thread : Thread
  loan : Loan
deriving Repr, DecidableEq

namespace Editor

/-- Borrows a set and empties it. A set too small for the processors in use would
drop some of them unnoticed, so it is given back and counts as none. -/
def openFor (thread : Thread) : Dialogue interface (Except Error Editor) :=
  .ask (.allocate processorLimit) fun
    | none => .done (.error (.setAllocation processorLimit))
    | some loan =>
      if loan.set.capacity < processorLimit then
        .ask (.release loan) fun _ => .done (.error (.setAllocation processorLimit))
      else
        .ask (.clear loan) fun set => .done (.ok ⟨thread, ⟨loan.ticket, set⟩⟩)

/-- Puts a processor into the set; one beyond the limit is refused before the
system is asked. -/
def select (processor : Nat) (editor : Editor) : Dialogue interface (Except Error Unit × Editor) :=
  if processorLimit ≤ processor then .done (.error (.beyondLimit processor), editor)
  else
    .note (.processorAdded editor.thread processor)
      (.ask (.select processor editor.loan) fun set =>
        .done (.ok (), ⟨editor.thread, ⟨editor.loan.ticket, set⟩⟩))

def apply (editor : Editor) : Dialogue interface (Except Error Unit × Editor) :=
  .ask (.measure editor.loan) fun size =>
    .ask (.bind editor.thread editor.loan size) fun
      | .error cause => .done (.error (.refused .setAffinity cause), editor)
      | .ok () =>
        .note (.affinityApplied editor.thread editor.loan.set.members) (.done (.ok (), editor))

def close (editor : Editor) : Dialogue interface Unit := .ask (.release editor.loan) .done

def describe (label : String) (editor : Editor) : String :=
  "MaskEditor \x7b bindings: " ++ label ++ ", thread: " ++ editor.thread.describe ++
    ", cpu_set: " ++ editor.loan.set.describe ++ " \x7d"

end Editor

end Flat

end ThreadAffinity
