import ThreadAffinity.Proofs.Enumeration
import ThreadAffinity.Proofs.Flat.Selection
import ThreadAffinity.Proofs.NativeSet.Views

/-!
# What it takes to bind a thread to a mask

On a flat system a thread is bound to a mask in one go, and here is all that the system is asked
on the way, in order. `Binding` lists the four ways this can go. Which of them it is depends on
the mask and on the set that is lent, and after that on nothing but the verdict. In each of them
a set that was lent is given back at the end.

Selecting the members of the mask one after the other puts them into the set in increasing order,
each with one request (`selectAll_run`). What the set holds in the end (`filled`) is the mask and
nothing else, since it was emptied before and has room for all of them (`filled_clear`).
-/

namespace ThreadAffinity

namespace Flat

open Backend

variable {σ : Type} {system : System interface σ} {label : String} {thread : Thread} {mask : Mask}
  {processors : List Nat} {set : NativeSet} {p : Nat}

/-! ## Filling a set -/

def filled (set : NativeSet) (processors : List Nat) : NativeSet :=
  processors.foldl (fun set p => (set.insert p).2) set

def fillings (ticket : Nat) : NativeSet → List Nat → List ((request : Request) × Reply request)
  | _, [] => []
  | set, p :: processors =>
    ⟨.select p ⟨ticket, set⟩, (set.insert p).2⟩ :: fillings ticket (set.insert p).2 processors

theorem filled_cons : filled set (p :: processors) = filled (set.insert p).2 processors := rfl

theorem capacity_filled (set : NativeSet) (processors : List Nat) :
    (filled set processors).capacity = set.capacity := by
  induction processors generalizing set with
  | nil => rfl
  | cons p processors ih => rw [filled_cons, ih, NativeSet.capacity_insert]

theorem contains_filled (hroom : 1024 ≤ set.capacity) (hlt : ∀ p ∈ processors, p < 1024) (q : Nat) :
    (filled set processors).contains q = true ↔ set.contains q = true ∨ q ∈ processors := by
  induction processors generalizing set with
  | nil => simp [filled]
  | cons p processors ih =>
      obtain ⟨hp, hrest⟩ := List.forall_mem_cons.mp hlt
      have hkept : 1024 ≤ (set.insert p).2.capacity := by
        rwa [NativeSet.capacity_insert]
      rw [filled_cons, ih hkept hrest, contains_insert_iff hroom hp, List.mem_cons, or_assoc,
        eq_comm (a := p)]

/-- A set that was emptied and filled with the members of a mask holds the mask. -/
theorem filled_clear (hroom : 1024 ≤ set.capacity) (q : Nat) :
    (filled set.clear mask.members).contains q = mask.contains q := by
  have hkept : 1024 ≤ set.clear.capacity := by
    rwa [NativeSet.capacity_clear]
  rw [Bool.eq_iff_iff, contains_filled hkept Mask.lt_of_mem_members, NativeSet.contains_clear,
    Mask.mem_members]
  exact or_iff_right Bool.false_ne_true

theorem select_run (hplain : Plain system) (hp : p < 1024) (e : Editor) (state : σ) :
    ((backend label).select p e).run system state =
      ⟨(.ok (), e.holding (e.loan.set.insert p).2),
        (system.answer (.select p e.loan) state).2,
        [.event (.processorAdded e.thread p),
          .call (.select p e.loan) (e.loan.set.insert p).2]⟩ := by
  have hbelow : ¬ processorLimit ≤ p := Nat.not_le.mpr hp
  change (Editor.select p e).run system state = _
  rw [Editor.select, if_neg hbelow, ← hplain.select p e.loan state]
  rfl

theorem selectAll_run (hplain : Plain system) (label : String)
    (hlt : ∀ p ∈ processors, p < 1024) (e : Editor) (state : σ) :
    ∃ entries after,
      ((backend label).selectAll processors e).run system state =
          ⟨(.ok (), e.holding (filled e.loan.set processors)), after, entries⟩ ∧
        exchangesOf entries = fillings e.loan.ticket e.loan.set processors := by
  induction processors generalizing e state with
  | nil => exact ⟨[], state, rfl, rfl⟩
  | cons p processors ih =>
      obtain ⟨hp, hrest⟩ := List.forall_mem_cons.mp hlt
      obtain ⟨entries, after, hrun, hexchanges⟩ := ih hrest (e.holding (e.loan.set.insert p).2)
        (system.answer (.select p e.loan) state).2
      rw [Backend.selectAll, Dialogue.run_bind, select_run hplain hp]
      simp only [hrun]
      refine ⟨_, after, rfl, ?_⟩
      rw [exchangesOf_append, hexchanges]
      rfl

/-! ## Binding -/

/-- All that the system is asked in order to bind a thread to a mask, and what comes of it. -/
inductive Binding (thread : Thread) (mask : Mask) (lent : Option Loan) :
    List ((request : Request) × Reply request) → Except Error Unit → Prop
  | nothingSelected (hmask : ∀ p, mask.contains p = false) :
      Binding thread mask lent [] (.error .emptySelection)
  | notLent (hmask : ∃ p, mask.contains p = true) (hlent : lent = none) :
      Binding thread mask lent [⟨.allocate 1024, none⟩] (.error (.setAllocation 1024))
  | tooSmall (hmask : ∃ p, mask.contains p = true) (loan : Loan) (hlent : lent = some loan)
      (hsmall : loan.set.capacity < 1024) :
      Binding thread mask lent [⟨.allocate 1024, some loan⟩, ⟨.release loan, ()⟩]
        (.error (.setAllocation 1024))
  | handedOver (hmask : ∃ p, mask.contains p = true) (loan : Loan) (hlent : lent = some loan)
      (hlarge : 1024 ≤ loan.set.capacity) (processors : List Nat)
      (hincreasing : processors.Pairwise (· < ·))
      (hmem : ∀ p, p ∈ processors ↔ mask.contains p = true) (set : NativeSet)
      (hset : set = filled loan.set.clear processors)
      (hcapacity : set.capacity = loan.set.capacity) (hmembers : set.members = processors)
      (hcontains : ∀ p, set.contains p = mask.contains p) (size : Nat) (verdict : Verdict) :
      Binding thread mask lent
        ([⟨.allocate 1024, some loan⟩, ⟨.clear loan, loan.set.clear⟩] ++
          fillings loan.ticket loan.set.clear processors ++
          [⟨.measure ⟨loan.ticket, set⟩, size⟩, ⟨.bind thread ⟨loan.ticket, set⟩ size, verdict⟩,
            ⟨.release ⟨loan.ticket, set⟩, ()⟩])
        (verdict.mapError (.refused .setAffinity))

/-- An editor that was opened for a mask is filled with it, measured and handed over. -/
theorem applyAll_run (hplain : Plain system) (label : String) (mask : Mask) (e : Editor)
    (state : σ) :
    ∃ size verdict entries after,
      ((backend label).applyAll mask.members e).run system state =
          ⟨(Except.mapError (.refused .setAffinity) verdict,
            e.holding (filled e.loan.set mask.members)), after, entries⟩ ∧
        exchangesOf entries = fillings e.loan.ticket e.loan.set mask.members ++
          [⟨.measure ⟨e.loan.ticket, filled e.loan.set mask.members⟩, size⟩,
            ⟨.bind e.thread ⟨e.loan.ticket, filled e.loan.set mask.members⟩ size, verdict⟩] := by
  obtain ⟨front, now, hselected, hfront⟩ :=
    selectAll_run hplain label (Mask.lt_of_mem_members : ∀ p ∈ mask.members, p < 1024) e state
  obtain ⟨back, result, kept, after, happlied, hends⟩ :=
    (e.holding (filled e.loan.set mask.members)).apply_ends system now
  replace happlied : ((backend label).apply (e.holding (filled e.loan.set mask.members))).run
    system now = ⟨(result, kept), after, back⟩ := happlied
  rw [Backend.applyAll, Dialogue.run_bind, hselected]
  simp only [happlied]
  cases hends with
  | refused size cause =>
      refine ⟨size, .error cause, _, after, rfl, ?_⟩
      rw [exchangesOf_append, hfront]
      rfl
  | granted size =>
      refine ⟨size, .ok (), _, after, rfl, ?_⟩
      rw [exchangesOf_append, hfront]
      rfl

theorem members_filled_clear (hroom : 1024 ≤ set.capacity) :
    (filled set.clear mask.members).members = mask.members := by
  refine (NativeSet.members_pairwise _).eq_of_mem_iff (Mask.members_pairwise mask) fun p => ?_
  rw [NativeSet.mem_members, capacity_filled, NativeSet.capacity_clear, filled_clear hroom,
    Mask.mem_members]
  exact and_iff_right_of_imp fun hp => Nat.lt_of_lt_of_le (Mask.lt_of_contains hp) hroom

theorem binding_handedOver (thread : Thread) (hmask : ∃ p, mask.contains p = true) {loan : Loan}
    (hlarge : 1024 ≤ loan.set.capacity) (size : Nat) (verdict : Verdict) :
    Binding thread mask (some loan)
      ([⟨.allocate 1024, some loan⟩, ⟨.clear loan, loan.set.clear⟩] ++
        fillings loan.ticket loan.set.clear mask.members ++
        [⟨.measure ⟨loan.ticket, filled loan.set.clear mask.members⟩, size⟩,
          ⟨.bind thread ⟨loan.ticket, filled loan.set.clear mask.members⟩ size, verdict⟩,
          ⟨.release ⟨loan.ticket, filled loan.set.clear mask.members⟩, ()⟩])
      (verdict.mapError (.refused .setAffinity)) := by
  have hcapacity : (filled loan.set.clear mask.members).capacity = loan.set.capacity := by
    rw [capacity_filled, NativeSet.capacity_clear]
  exact .handedOver hmask loan rfl hlarge mask.members (Mask.members_pairwise mask)
    (fun _ => Mask.mem_members) _ rfl hcapacity (members_filled_clear hlarge)
    (filled_clear hlarge) size verdict

theorem withEditor_binding (hplain : Plain system) (hmask : ∃ p, mask.contains p = true)
    (state : σ) :
    let outcome := ((backend label).withEditor thread
      ((backend label).applyAll mask.members)).run system state
    Binding thread mask (system.answer (.allocate 1024) state).1 (exchangesOf outcome.entries)
      outcome.value := by
  obtain ⟨entries, value, now, hrun, hopened⟩ := Editor.openFor_ends thread system state
  replace hrun : ((backend label).openEditor thread).run system state =
    ⟨value, now, entries⟩ := hrun
  replace hopened : Editor.Opened system thread (system.answer (.allocate 1024) state).1 entries
    value := hopened
  generalize (system.answer (.allocate 1024) state).1 = lent at hopened ⊢
  rw [withEditor, Dialogue.run_bind, hrun]
  cases hopened with
  | notLent => exact .notLent hmask rfl
  | tooSmall loan hsmall => exact .tooSmall hmask loan rfl hsmall
  | opened loan hlarge earlier =>
      rw [hplain.clear]
      obtain ⟨size, verdict, back, after, hworked, hback⟩ :=
        applyAll_run hplain label mask ⟨thread, ⟨loan.ticket, loan.set.clear⟩⟩ now
      have hclosed : ∀ (kept : Editor) (last : σ),
          exchangesOf (((backend label).close kept).run system last).entries =
            [⟨.release kept.loan, ()⟩] := fun _ _ => rfl
      simp only [Dialogue.run_bind, hworked, exchangesOf_append, hback, hclosed, Dialogue.run_done,
        List.append_nil, List.append_assoc]
      have hover := binding_handedOver thread hmask hlarge size verdict
      rwa [List.append_assoc] at hover

theorem bindThreadTo_binding (hplain : Plain system) (label : String) (thread : Thread)
    (mask : Mask) (state : σ) :
    let outcome := ((backend label).bindThreadTo thread mask).run system state
    Binding thread mask (system.answer (.allocate 1024) state).1 (exchangesOf outcome.entries)
      outcome.value := by
  by_cases hmask : ∃ p, mask.contains p = true
  · rw [bindThreadTo_of_contains _ _ hmask]
    exact withEditor_binding hplain hmask state
  · have hnone : ∀ p, mask.contains p = false := fun p =>
      Bool.eq_false_of_not_eq_true (not_exists.mp hmask p)
    rw [bindThreadTo, if_pos (Mask.isEmpty_iff.mpr hnone)]
    exact .nothingSelected hnone

/-- Binding a thread to a mask asks exactly this of a system that clears and selects as usual.
Binding the calling thread asks first which thread that is, and then the same, even if the mask
selects nothing. -/
theorem binding_to_mask_asks_exactly (hplain : Plain system) (label : String) (mask : Mask)
    (thread : Thread) (state : σ) :
    let outcome := ((backend label).bindThreadTo thread mask).run system state
    let caller := system.answer .currentThread state
    let current := ((backend label).bindCurrentTo mask).run system state
    Binding thread mask (system.answer (.allocate 1024) state).1 (exchangesOf outcome.entries)
        outcome.value ∧
      ∃ calls, exchangesOf current.entries = ⟨.currentThread, caller.1⟩ :: calls ∧
        Binding caller.1 mask (system.answer (.allocate 1024) caller.2).1 calls current.value := by
  intro outcome caller current
  exact ⟨bindThreadTo_binding hplain label thread mask state, _, rfl,
    bindThreadTo_binding hplain label caller.1 mask caller.2⟩

/-- The set has more room than asked for, comes with processors in it that are not wanted and
is said to be smaller than it is, and the system refuses. -/
theorem binding_to_mask_asks_exactly_refused :
    let script : Script := ⟨5, .handle 3, [some 1100], [1, 900], some 24, [.error (.code 22)], 0⟩
    let mask := Mask.ofWord 0x16
    let outcome := ((backend "script").bindThreadTo (.handle 7) mask).run scripted script
    let current := ((backend "script").bindCurrentTo mask).run scripted script
    let lent : Option Loan := some ⟨0, script.newSet 1100⟩
    Plain scripted ∧
      Binding (.handle 7) mask lent (exchangesOf outcome.entries) outcome.value ∧
      ∃ calls, exchangesOf current.entries = ⟨.currentThread, .handle 3⟩ :: calls ∧
        Binding (.handle 3) mask lent calls current.value := by
  intro script mask outcome current lent
  exact ⟨plain_scripted,
    binding_to_mask_asks_exactly plain_scripted "script" mask (.handle 7) script⟩

end Flat

end ThreadAffinity
