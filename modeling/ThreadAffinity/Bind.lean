import ThreadAffinity.Backend
import ThreadAffinity.Mask

/-!
# Binding a thread in one go

The operations most users need: open an editor, select what is wanted, apply it
and close the editor again. The editor is closed whatever happens in between, so
nothing it borrowed is lost on a failure.

Masks are handed over in increasing order, which is the order that a backend
needs when it walks through processor groups.
-/

namespace ThreadAffinity

namespace Backend

variable {I : Interface} {E : Type}

/-! ## Inside an editor -/

/-- Selects the processors of a list one after the other, up to the first one that
is refused. -/
def selectAll (backend : Backend I E) : List Nat → E → Dialogue I (Except Error Unit × E)
  | [], editor => .done (.ok (), editor)
  | processor :: rest, editor =>
    (backend.select processor editor).bind fun
      | (.error error, kept) => .done (.error error, kept)
      | (.ok (), kept) => backend.selectAll rest kept

/-- Selects the processors of a list and applies them if all were accepted. -/
def applyAll (backend : Backend I E) (processors : List Nat) (editor : E) :
    Dialogue I (Except Error Unit × E) :=
  (backend.selectAll processors editor).bind fun
    | (.error error, kept) => .done (.error error, kept)
    | (.ok (), kept) => backend.apply kept

/-- Works with an editor that is opened before and closed after. -/
def withEditor (backend : Backend I E) (thread : Thread)
    (work : E → Dialogue I (Except Error Unit × E)) : Dialogue I (Except Error Unit) :=
  (backend.openEditor thread).bind fun
    | .error error => .done (.error error)
    | .ok editor =>
      (work editor).bind fun (result, kept) => (backend.close kept).bind fun _ => .done result

theorem selectAll_append (backend : Backend I E) (front back : List Nat) (editor : E) :
    backend.selectAll (front ++ back) editor =
      (backend.selectAll front editor).bind fun
        | (.error error, kept) => .done (.error error, kept)
        | (.ok (), kept) => backend.selectAll back kept := by
  induction front generalizing editor with
  | nil => rfl
  | cons processor front ih =>
    simp only [List.cons_append, selectAll, Dialogue.bind_assoc]
    congr 1
    funext result
    obtain ⟨result | _, kept⟩ := result
    · rfl
    · exact ih kept

theorem applyAll_cons (backend : Backend I E) (processor : Nat)
    (rest : List Nat) (editor : E) :
    backend.applyAll (processor :: rest) editor =
      (backend.select processor editor).bind fun
        | (.error error, kept) => .done (.error error, kept)
        | (.ok (), kept) => backend.applyAll rest kept := by
  rw [applyAll, selectAll, Dialogue.bind_assoc]
  congr 1
  funext result
  obtain ⟨result | _, kept⟩ := result
  · rfl
  · rfl

/-! ## Operations -/

def bindThread (backend : Backend I E) (thread : Thread) (processor : Nat) :
    Dialogue I (Except Error Unit) :=
  (backend.openEditor thread).bind fun
    | .error error => .done (.error error)
    | .ok editor =>
      (backend.select processor editor).bind fun
        | (.error error, kept) => (backend.close kept).bind fun _ => .done (.error error)
        | (.ok (), kept) =>
          (backend.apply kept).bind fun (result, last) =>
            (backend.close last).bind fun _ => .done result

/-- Binds a thread to all processors of a mask. A mask that selects nothing is
refused before the system is asked for anything. -/
def bindThreadTo (backend : Backend I E) (thread : Thread) (mask : Mask) :
    Dialogue I (Except Error Unit) :=
  if mask.isEmpty then .done (.error .emptySelection)
  else backend.withEditor thread (backend.applyAll mask.members)

def bindCurrent (backend : Backend I E) (processor : Nat) : Dialogue I (Except Error Unit) :=
  backend.currentThread.bind fun thread => backend.bindThread thread processor

def bindCurrentTo (backend : Backend I E) (mask : Mask) : Dialogue I (Except Error Unit) :=
  backend.currentThread.bind fun thread => backend.bindThreadTo thread mask

/-- One processor is a list of processors like any other. -/
theorem bindThread_eq_withEditor (backend : Backend I E) (thread : Thread) (processor : Nat) :
    backend.bindThread thread processor =
      backend.withEditor thread (backend.applyAll [processor]) := by
  rw [bindThread, withEditor]
  congr 1
  funext opened
  obtain error | editor := opened
  · rfl
  · -- the list is gone through by selecting its head and applying the rest, which is empty
    simp only [applyAll_cons, Dialogue.bind_assoc]
    congr 1
    funext selected
    obtain ⟨error | _, kept⟩ := selected
    · rfl
    · rfl

/-! ## Best effort

For callers that go on without the binding: the error goes to the log, and what
remains is whether the binding was made. -/

def tryBind (backend : Backend I E) (processor : Nat) : Dialogue I Bool :=
  (backend.bindCurrent processor).bind fun
    | .ok () => .done true
    | .error error => .note (.bindFailed processor error) (.done false)

def tryBindTo (backend : Backend I E) (mask : Mask) : Dialogue I Bool :=
  (backend.bindCurrentTo mask).bind fun
    | .ok () => .done true
    | .error error => .note (.bindAllFailed mask.members error) (.done false)

end Backend

end ThreadAffinity
