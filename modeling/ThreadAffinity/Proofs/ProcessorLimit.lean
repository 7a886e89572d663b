import ThreadAffinity.Flat.Backend
import ThreadAffinity.Flat.Script
import ThreadAffinity.Grouped.Script
import ThreadAffinity.Proofs.Flat.Turn
import ThreadAffinity.Proofs.Grouped.Account
import ThreadAffinity.Proofs.Session.Account
import ThreadAffinity.Proofs.Topology.RoundTrip

/-!
# The limit on processor numbers

Processor numbers are below `processorLimit`, whatever the system. A backend
`KeepsLimit` if no session gets beyond: a step that is about a processor beyond the
limit does not work, and no selection that is handed to the system has one.

The flat backend looks at the number of every processor it is given, and it keeps the
limit. The group backend never does. It accepts what its groups have a seat for, so it
keeps the limit exactly if they have none for a processor beyond it; and nothing in the
topology data says so, since there is room for 65535 groups.
-/

namespace ThreadAffinity

open Dialogue Session

variable {I : Interface} {E σ : Type}

/-- No session gets beyond the limit. What an entry hands to the system is told by
`passes`; only of an `honest` system can it be said what the selections hold. -/
def KeepsLimit (passes : Entry I → Nat → Prop) (honest : (σ : Type) → System I σ → Prop)
    (backend : Backend I E) : Prop :=
  ∀ (σ : Type) (system : System I σ) (steps : List Step) (state : σ),
    let history := Session.run ⟨backend, backend⟩ system steps state
    List.Forall₂ (fun step record =>
      record.result.Works → ∀ p, step.Names p → p < processorLimit) steps history.records ∧
    (honest σ system → ∀ entry ∈ history.entries, ∀ p, passes entry p → p < processorLimit)

/-- Nothing that was written down hands over a processor beyond the limit. -/
def Within (passes : Entry I → Nat → Prop) (H : List (Entry I)) : Prop :=
  ∀ entry ∈ H, ∀ p, passes entry p → p < processorLimit

theorem Within.append {passes : Entry I → Nat → Prop} {H back : List (Entry I)}
    (h : Within passes H) (hback : Within passes back) : Within passes (H ++ back) :=
  List.forall_mem_append.mpr ⟨h, hback⟩

theorem within_of_silent {passes : Entry I → Nat → Prop} {H : List (Entry I)}
    (h : ∀ entry ∈ H, ∀ p, ¬ passes entry p) : Within passes H :=
  fun entry hentry p hp => absurd hp (h entry hentry p)

theorem Within.append_silent {passes : Entry I → Nat → Prop} {H : List (Entry I)}
    {entry : Entry I} (h : Within passes H) (hsilent : ∀ p, ¬ passes entry p) :
    Within passes (H ++ [entry]) :=
  h.append (within_of_silent (List.forall_mem_singleton.mpr hsilent))

/-- It is enough that the backend accepts no processor beyond the limit and, over an
honest system, puts none into a selection. -/
theorem keepsLimit_of_accounts {passes : Entry I → Nat → Prop}
    {honest : (σ : Type) → System I σ → Prop} {backend : Backend I E} {good : Nat → Prop}
    {fit : (σ : Type) → System I σ → E → Prop} (hgood : ∀ p, good p → p < processorLimit)
    (h : ∀ (σ : Type) (system : System I σ), backend.Accounts system good fun editors H _ =>
      Backend.Orderly (fit σ system) (fun H => honest σ system → Within passes H) editors H) :
    KeepsLimit passes honest backend := by
  intro σ system steps state
  obtain ⟨hsounds, after, hend⟩ :=
    run_accounts ⟨backend, backend⟩ (h σ system) (h σ system) steps state
      ⟨nofun, fun _ => nofun⟩
  exact ⟨hsounds.imp fun _ _ hsound hworks p hp => hgood p (hsound hworks p hp), hend.written⟩

/-! ## The flat backend -/

namespace Flat

/-- Clearing a set and selecting in it do what they say: nothing is left in a cleared set,
and selecting a processor adds no other. -/
def KeepsSets (system : System interface σ) : Prop :=
  (∀ loan state p, NativeSet.contains (system.answer (.clear loan) state).1 p = false) ∧
    ∀ q loan state p, NativeSet.contains (system.answer (.select q loan) state).1 p = true →
      loan.set.contains p = true ∨ p = q

/-- The processor is in the set that a thread is to be bound to. -/
def Passes : Entry interface → Nat → Prop
  | .call (.bind _ loan _) _, p => loan.set.contains p = true
  | _, _ => False

theorem keepsSets_scripted : KeepsSets scripted := by
  refine ⟨fun loan state p => NativeSet.contains_clear loan.set p, fun q loan state p hp => ?_⟩
  have hcontains := NativeSet.contains_insert loan.set q p
  change (loan.set.insert q).2.contains p = true at hp
  rw [hp] at hcontains
  rcases Bool.or_eq_true_iff.mp hcontains.symm with hold | hnew
  · exact Or.inl hold
  · exact Or.inr (of_decide_eq_true (Bool.and_eq_true_iff.mp hnew).2).symm

/-- The set of the editor has no processor beyond the limit, if the system keeps its sets. -/
def Limited (system : System interface σ) (e : Editor) : Prop :=
  KeepsSets system → ∀ p, e.loan.set.contains p = true → p < processorLimit

variable {system : System interface σ} {e : Editor} {thread : Thread} {p : Nat}
  {entries : List (Entry interface)}

theorem Editor.Opened.limited {loan? : Option Loan} {opened : Except Error Editor}
    (h : Opened system thread loan? entries opened) :
    Within Passes entries ∧ ∀ e, opened = .ok e → Limited system e := by
  cases h with
  | notLent => exact ⟨within_of_silent (by simp [Passes]), nofun⟩
  | tooSmall loan h => exact ⟨within_of_silent (by simp [Passes]), nofun⟩
  | opened loan h now =>
      refine ⟨within_of_silent (by simp [Passes]), ?_⟩
      rintro e heq hsets p hp
      obtain rfl := Except.ok.inj heq
      rw [hsets.1 loan now p] at hp
      cases hp

theorem Editor.Selected.limited {selected : Except Error Unit × Editor}
    (h : Selected system e p entries selected) (he : Limited system e) :
    Within Passes entries ∧ Limited system selected.2 ∧
      (selected.1 = .ok () → p < processorLimit) := by
  cases h with
  | beyond hle => exact ⟨nofun, he, nofun⟩
  | taken hlt now =>
      refine ⟨within_of_silent (by simp [Passes]), fun hsets q hq => ?_, fun _ => hlt⟩
      rcases hsets.2 p e.loan now q hq with hold | rfl
      · exact he hsets q hold
      · exact hlt

theorem Editor.Applied.limited {applied : Except Error Unit × Editor}
    (h : Applied e entries applied) (he : Limited system e) :
    (KeepsSets system → Within Passes entries) ∧ applied.2 = e := by
  cases h with
  | refused size cause => exact ⟨fun hsets => by simpa [Within, Passes] using he hsets, rfl⟩
  | granted size => exact ⟨fun hsets => by simpa [Within, Passes] using he hsets, rfl⟩

theorem accounts_limit (label : String) (system : System interface σ) :
    (backend label).Accounts system (· < processorLimit) fun editors H _ =>
      Backend.Orderly (Limited system) (fun H => KeepsSets system → Within Passes H) editors H where
  perm := fun hperm h => h.perm hperm
  note := fun _ _ h => ⟨h.editors, fun hsets => (h.written hsets).append_silent fun _ hp => hp⟩
  processorCount := fun _ _ _ h =>
    ⟨h.editors, fun hsets => (h.written hsets).append_silent fun _ hp => hp⟩
  currentThread := fun _ _ _ h =>
    ⟨h.editors, fun hsets => (h.written hsets).append_silent fun _ hp => hp⟩
  openEditor := fun thread editors H state h => by
    obtain ⟨entries, opened, after, hrun, hopened⟩ := Editor.openFor_ends thread system state
    have hrun : ((backend label).openEditor thread).run system state = _ := hrun
    obtain ⟨hentries, hlimited⟩ := hopened.limited
    rw [hrun]
    exact h.gain hlimited fun hsets => (h.written hsets).append hentries
  select := fun p e editors H state h => by
    obtain ⟨entries, result, kept, after, hrun, hselected⟩ := e.select_ends p system state
    have hrun : ((backend label).select p e).run system state = _ := hrun
    obtain ⟨hentries, hkept, hgood⟩ := hselected.limited (h.editors e List.mem_cons_self)
    rw [hrun]
    exact ⟨hgood, h.replace hkept fun hsets => (h.written hsets).append hentries⟩
  apply := fun e editors H state h => by
    obtain ⟨entries, result, kept, after, hrun, happlied⟩ := e.apply_ends system state
    have hrun : ((backend label).apply e).run system state = _ := hrun
    have he := h.editors e List.mem_cons_self
    obtain ⟨hentries, rfl⟩ := happlied.limited he
    rw [hrun]
    exact h.replace he fun hsets => (h.written hsets).append (hentries hsets)
  close := fun _ _ _ _ h =>
    h.lose fun hsets => (h.written hsets).append_silent fun _ hp => hp

end Flat

/-! ## The group backend -/

namespace Grouped

open ThreadAffinity.Group

variable {groups : List Group} {p : Nat}

/-- The processor has its seat in the mask that a thread is to be bound to. -/
def Passes (groups : List Group) : Entry interface → Nat → Prop
  | .call (.bind _ affinity) _, p =>
    ∃ i, Seated groups affinity.group p i ∧ affinity.mask.getLsbD i = true
  | _, _ => False

theorem Passes.addressable {entry : Entry interface} (h : Passes groups entry p) :
    Addressable groups p := by
  unfold Passes at h
  split at h
  · obtain ⟨i, hseat, -⟩ := h
    exact hseat.addressable
  · exact h.elim

/-- If there is no seat beyond the limit, no transcript can hand one over. -/
theorem within_of_addressable (hlimit : ∀ p, Addressable groups p → p < processorLimit)
    (H : List (Entry interface)) : Within (Passes groups) H :=
  fun _ _ p hp => hlimit p hp.addressable

theorem records_openEditor_select (label : String) (groups : List Group) (thread : Thread) (p : Nat)
    (system : System interface σ) (state : σ) :
    let selected := ((Editor.new groups thread).select p).run system state
    (Session.run ⟨backend label groups, backend label groups⟩ system
        [.openEditor 0 thread, .select 0 p] state).records =
      [⟨.answer (.ok .unit), []⟩, ⟨.answer (.ofUnit selected.value.1), selected.entries⟩] := by
  simp [Session.run, playAll, play, openAt, closeAt, workAt, answered, backend, Dialogue.bind,
    Dialogue.run_bind, Answer.ofUnit]

theorem lt_limit_of_keepsLimit (few : groups.length < groupNumberLimit) {label : String}
    (h : KeepsLimit (Passes groups) (fun _ _ => True) (backend label groups))
    (ha : Addressable groups p) : p < processorLimit := by
  obtain ⟨hworks, -⟩ := h Script scripted [.openEditor 0 .caller, .select 0 p]
    ⟨[], .caller, (.ok (), 0), (.ok (), 0), true, []⟩
  rw [records_openEditor_select, Editor.select_new_run few .caller ha] at hworks
  cases hworks with
  | cons hopened hrest =>
      cases hrest with
      | cons hselected hnil => exact hselected trivial p rfl

theorem keepsLimit_of_addressable (few : groups.length < groupNumberLimit) (label : String)
    (hlimit : ∀ p, Addressable groups p → p < processorLimit) :
    KeepsLimit (Passes groups) (fun _ _ => True) (backend label groups) := by
  refine keepsLimit_of_accounts hlimit fun _ system =>
    accounts_orderly few label system ?_ ?_ ?_ ?_
  all_goals
    intros
    exact within_of_addressable hlimit _

end Grouped

/-! ## Both -/

/-- The flat backend keeps the limit. The group backend over groups that were read from
topology data keeps it exactly if no processor beyond the limit has a seat in them. -/
theorem keepsLimit_exactly {bytes : List UInt8} {groups : List Group}
    (haccepted : Topology.decode bytes = .ok groups) (label : String) :
    KeepsLimit Flat.Passes (fun _ => Flat.KeepsSets) (Flat.backend label) ∧
      (KeepsLimit (Grouped.Passes groups) (fun _ _ => True) (Grouped.backend label groups) ↔
        ∀ p, Group.Addressable groups p → p < processorLimit) := by
  have few : groups.length < Grouped.groupNumberLimit := (Topology.length_of_decode haccepted).2
  refine ⟨?_, ?_, ?_⟩
  · exact keepsLimit_of_accounts (fun _ hp => hp) fun _ system => Flat.accounts_limit label system
  · exact fun h p ha => Grouped.lt_limit_of_keepsLimit few h ha
  · exact Grouped.keepsLimit_of_addressable few label

theorem keepsLimit_exactly_two_groups :
    Topology.decode (Topology.groupRecord [⟨2, 3⟩, ⟨4, 0xa⟩]) = .ok [⟨2, 3⟩, ⟨4, 0xa⟩] ∧
      Flat.KeepsSets Flat.scripted ∧
      KeepsLimit Flat.Passes (fun _ => Flat.KeepsSets) (Flat.backend "scripted") ∧
      (KeepsLimit (Grouped.Passes [⟨2, 3⟩, ⟨4, 0xa⟩]) (fun _ _ => True)
          (Grouped.backend "scripted" [⟨2, 3⟩, ⟨4, 0xa⟩]) ↔
        ∀ p, Group.Addressable [⟨2, 3⟩, ⟨4, 0xa⟩] p → p < processorLimit) := by
  have haccepted : Topology.decode (Topology.groupRecord [⟨2, 3⟩, ⟨4, 0xa⟩]) =
      .ok [⟨2, 3⟩, ⟨4, 0xa⟩] := Topology.decode_groupRecord (by decide) (by decide)
  exact ⟨haccepted, Flat.keepsSets_scripted, keepsLimit_exactly haccepted "scripted"⟩

/-- Seventeen full groups have a seat for processor 1024, and the group backend binds
threads to it. -/
theorem not_keepsLimit_of_seventeen_groups :
    Topology.decode (Topology.groupRecord (List.replicate 17 ⟨64, 0xffffffffffffffff⟩)) =
        .ok (List.replicate 17 ⟨64, 0xffffffffffffffff⟩) ∧
      ¬ KeepsLimit (Grouped.Passes (List.replicate 17 ⟨64, 0xffffffffffffffff⟩)) (fun _ _ => True)
        (Grouped.backend "grouped" (List.replicate 17 ⟨64, 0xffffffffffffffff⟩)) := by
  refine ⟨Topology.decode_groupRecord (by decide) (by decide), fun h => ?_⟩
  have ha : Group.Addressable (List.replicate 17 ⟨64, 0xffffffffffffffff⟩) 1024 :=
    ⟨16, ⟨64, 0xffffffffffffffff⟩, rfl, by decide, by decide⟩
  exact absurd (Grouped.lt_limit_of_keepsLimit (by decide) h ha) (by decide)

end ThreadAffinity
