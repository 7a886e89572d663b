import ThreadAffinity.Linux.Backend
import ThreadAffinity.Linux.Script
import ThreadAffinity.Proofs.Course
import ThreadAffinity.Proofs.Enumeration
import ThreadAffinity.Proofs.Flat.Turn
import ThreadAffinity.Proofs.Mask.FiniteSet

/-!
# The block that the kernel reads

On Linux a selection reaches the kernel as a block of words, and a mask is a block of words
too. The two coincide: what a thread is bound to is, word for word, the mask that was asked
for.

The block of an editor goes along with the mask of what was selected so far. A new editor
holds the empty mask (`openEditor_standard`), and a processor that the mask takes in the
block takes in as well (`select_standard`, `selectAll_run`). Selecting the members of a mask
one after the other makes that mask, so this is the block that is handed over in the end.
-/

namespace ThreadAffinity

namespace Linux

open Backend

variable {σ : Type} {mask made : Mask} {processors : List Nat} {p : Nat}

/-! ## Applying -/

/-- The rest of an application once the kernel has replied. -/
def concluded (editor : Flat.Editor) (status : Int) :
    Dialogue interface (Except Error Unit × Flat.Editor) :=
  if status = 0 then
    .note (.affinityApplied editor.thread editor.loan.set.members) (.done (.ok (), editor))
  else .done (.error (.refused .setAffinity (.code status)), editor)

/-- Applying asks the kernel once, for no more bytes than the block has. -/
theorem apply_eq_ask (label : String) (options : Options) (editor : Flat.Editor) :
    (backend label options).apply editor =
      .ask (.setAffinity editor.thread
        (min (options.size?.getD editor.loan.set.byteSize) editor.loan.set.byteSize)
        editor.loan.set) (concluded editor) := by
  change Dialogue.ask _ _ = Dialogue.ask _ _
  congr 1
  funext (status : Int)
  by_cases hstatus : status = 0
  · simp only [concluded, Dialogue.bind, if_pos hstatus]
    rfl
  · simp only [concluded, Dialogue.bind, if_neg hstatus]
    rfl

/-! ## An editor and its block -/

/-- The editor of a thread whose block holds a mask. -/
def editorOn (thread : Thread) (mask : Mask) : Flat.Editor := ⟨thread, ⟨0, ⟨mask.words⟩⟩⟩

theorem openEditor_standard (thread : Thread) :
    standard.openEditor thread = .done (.ok (editorOn thread .empty)) := rfl

theorem select_of_lt (hp : p < processorLimit) (label : String) (options : Options)
    (editor : Flat.Editor) :
    (backend label options).select p editor =
      .note (.processorAdded editor.thread p)
        (.done (.ok (), editor.holding (editor.loan.set.insert p).2)) := by
  change (Flat.Editor.select p editor).through (serve options) = _
  rw [Flat.Editor.select, if_neg (Nat.not_le.mpr hp)]
  rfl

theorem select_standard (hp : p < processorLimit) (thread : Thread) (mask : Mask) :
    standard.select p (editorOn thread mask) =
      .note (.processorAdded thread p) (.done (.ok (), editorOn thread (mask.adding p))) :=
  select_of_lt hp standardLabel .standard (editorOn thread mask)

theorem selectAll_run (h : processors.foldlM Mask.insert mask = .ok made) (thread : Thread)
    (system : System interface σ) (state : σ) :
    (standard.selectAll processors (editorOn thread mask)).run system state =
      ⟨(.ok (), editorOn thread made), state,
        processors.map fun p => .event (.processorAdded thread p)⟩ := by
  induction processors generalizing mask with
  | nil =>
      obtain rfl := Except.ok.inj h
      rfl
  | cons p processors ih =>
      rw [List.foldlM_cons] at h
      rcases Nat.lt_or_ge p processorLimit with hlt | hge
      · rw [Mask.insert_of_lt mask hlt] at h
        rw [selectAll, select_standard hlt]
        simp only [Dialogue.bind, Dialogue.run_note, ih h, List.map_cons]
      · rw [Mask.insert_of_ge mask hge] at h
        cases h

theorem byteSize_words (mask : Mask) : NativeSet.byteSize ⟨mask.words⟩ = 128 := by
  rw [NativeSet.byteSize, mask.size_words]
  rfl

theorem apply_standard (thread : Thread) (mask : Mask) :
    standard.apply (editorOn thread mask) =
      .ask (.setAffinity thread 128 ⟨mask.words⟩) (concluded (editorOn thread mask)) := by
  have hsize : min (NativeSet.byteSize ⟨mask.words⟩) (NativeSet.byteSize ⟨mask.words⟩) = 128 := by
    rw [Nat.min_self, byteSize_words]
  rw [← hsize]
  exact apply_eq_ask standardLabel .standard (editorOn thread mask)

/-! ## Handing it over -/

/-- The kernel is asked once, to bind the thread to a block of 128 bytes with the words of
the mask, and the result is what it replies. -/
def HandsOver (system : System interface σ) (state : σ) (thread : Thread) (mask : Mask)
    (outcome : Outcome interface σ (Except Error Unit)) : Prop :=
  let status : Int := (system.answer (.setAffinity thread 128 ⟨mask.words⟩) state).1
  exchangesOf outcome.entries = [⟨.setAffinity thread 128 ⟨mask.words⟩, status⟩] ∧
    outcome.value = if status = 0 then .ok () else .error (.refused .setAffinity (.code status))

theorem exchangesOf_map_event (events : List Event) :
    exchangesOf (events.map .event : List (Entry interface)) = [] := by
  induction events with
  | nil => rfl
  | cons event events ih => rw [List.map_cons, exchangesOf_event, ih]

/-- An editor is opened and closed without asking the kernel. -/
theorem withEditor_run (thread : Thread)
    (work : Flat.Editor → Dialogue interface (Except Error Unit × Flat.Editor))
    (system : System interface σ) (state : σ) :
    (standard.withEditor thread work).run system state =
      let worked := (work (editorOn thread .empty)).run system state
      ⟨worked.value.1, worked.state, worked.entries⟩ := by
  have hclosed (worked : Except Error Unit × Flat.Editor) :
      (standard.close worked.2).bind (fun _ => .done worked.1) = .done worked.1 := rfl
  rw [withEditor, openEditor_standard]
  simp only [Dialogue.bind, hclosed, Dialogue.run_bind, Dialogue.run_done, List.append_nil]

theorem concluded_run (editor : Flat.Editor) (status : Int) (system : System interface σ)
    (state : σ) :
    let rest := (concluded editor status).run system state
    rest.value.1 = (if status = 0 then .ok () else .error (.refused .setAffinity (.code status))) ∧
      exchangesOf rest.entries = [] := by
  by_cases hstatus : status = 0
  · rw [concluded, if_pos hstatus, if_pos hstatus]
    exact ⟨rfl, rfl⟩
  · rw [concluded, if_neg hstatus, if_neg hstatus]
    exact ⟨rfl, rfl⟩

theorem withEditor_hands_over (h : Mask.ofProcessors processors = .ok mask)
    (system : System interface σ) (state : σ) (thread : Thread) :
    HandsOver system state thread mask
      ((standard.withEditor thread (standard.applyAll processors)).run system state) := by
  obtain ⟨hvalue, hrest⟩ := concluded_run (editorOn thread mask)
    (system.answer (.setAffinity thread 128 ⟨mask.words⟩) state).1 system
    (system.answer (.setAffinity thread 128 ⟨mask.words⟩) state).2
  have hevents := exchangesOf_map_event (processors.map fun p => .processorAdded thread p)
  rw [List.map_map] at hevents
  rw [withEditor_run, applyAll, Dialogue.run_bind, selectAll_run h]
  simp only [apply_standard, Dialogue.run_ask]
  refine ⟨?_, hvalue⟩
  simp only [exchangesOf_append, exchangesOf_call, hrest]
  exact congrArg (· ++ _) hevents

/-- Whatever the kernel replies, binding a thread to a mask that selects anything hands over
the words of the mask, and binding it to one processor those of the mask of this processor. -/
theorem bindThreadTo_hands_over_words (system : System interface σ) (state : σ)
    (thread : Thread) :
    (∀ mask : Mask, (∃ p, mask.contains p = true) → mask.words.size = 16 ∧
      HandsOver system state thread mask
        ((standard.bindThreadTo thread mask).run system state)) ∧
      ∀ p < 1024, ∃ mask, Mask.ofProcessor p = .ok mask ∧
        (∀ q, mask.contains q = decide (q = p)) ∧ mask.words.size = 16 ∧
        HandsOver system state thread mask
          ((standard.bindThread thread p).run system state) := by
  constructor
  · intro mask hmask
    have hmembers : Mask.ofProcessors mask.members = .ok mask :=
      Mask.ofProcessors_eq_ok fun _ => Mask.mem_members
    rw [bindThreadTo_of_contains _ _ hmask]
    exact ⟨mask.size_words, withEditor_hands_over hmembers system state thread⟩
  · intro p hp
    have hcontains : ∀ q, (Mask.empty.adding p).contains q = decide (q = p) := fun q => by
      rw [Mask.contains_adding Mask.empty hp, Mask.contains_empty, Bool.false_or]
      exact decide_eq_decide.mpr eq_comm
    have honly : Mask.ofProcessors [p] = .ok (Mask.empty.adding p) :=
      Mask.ofProcessors_eq_ok fun q => by rw [List.mem_singleton, hcontains, decide_eq_true_eq]
    rw [bindThread_eq_withEditor]
    exact ⟨_, Mask.insert_of_lt Mask.empty hp, hcontains, Mask.size_words _,
      withEditor_hands_over honly system state thread⟩

/-- Processors of four words, and a kernel that takes the block for an invalid argument. -/
theorem bindThreadTo_hands_over_words_refused :
    let mask := (((Mask.ofWord 5).adding 64).adding 700).adding 1023
    let kernel : Script := ⟨8, none, [22]⟩
    (∃ p, mask.contains p = true) ∧
      HandsOver scripted kernel (.handle 7) mask
        ((standard.bindThreadTo (.handle 7) mask).run scripted kernel) ∧
      HandsOver scripted kernel (.handle 7) (Mask.empty.adding 1023)
        ((standard.bindThread (.handle 7) 1023).run scripted kernel) := by
  intro mask kernel
  obtain ⟨hmany, hone⟩ := bindThreadTo_hands_over_words scripted kernel (.handle 7)
  have hmask : ∃ p, mask.contains p = true := ⟨64, by decide⟩
  obtain ⟨only, honly, -, -, hover⟩ := hone 1023 (by decide)
  rw [← Except.ok.inj honly] at hover
  exact ⟨hmask, (hmany mask hmask).2, hover⟩

end Linux

end ThreadAffinity
