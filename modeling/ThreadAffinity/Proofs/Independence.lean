import ThreadAffinity.Flat.Backend
import ThreadAffinity.Flat.Script
import ThreadAffinity.Grouped.Backend
import ThreadAffinity.Proofs.Flat.Turn
import ThreadAffinity.Proofs.Session.Stay

/-!
# Editors do not interfere

Over either backend an editor is on its own. What its steps come to and what they ask is
settled by what the editor was given when it was opened, by these steps and by the replies
to its own questions; what is done meanwhile with other editors or with the backend makes no
difference. And the backend is after a session what it was before.

A group editor is given nothing but its thread, since the groups are the backend's. A flat
editor is given a set along with the thread, and of that set only the contents matter: the
ticket says which loan it is, and two editors in different sessions will rarely have sets
with the same ticket. Flat editors are therefore compared up to tickets.
-/

namespace ThreadAffinity

open Dialogue Session

/-! ## The group backend -/

namespace Grouped

theorem respects (label : String) (groups : List Group) :
    (backend label groups).Respects id Eq where
  processorCount := tallies_self _
  currentThread := tallies_self _
  openEditor := fun _ => tallies_done (.ok rfl)
  select := by
    rintro p editor _ rfl
    exact (tallies_self _).imp fun _ _ heq => ⟨congrArg Prod.fst heq, congrArg Prod.snd heq⟩
  apply := by
    rintro editor _ rfl
    exact (tallies_self _).imp fun _ _ heq => ⟨congrArg Prod.fst heq, congrArg Prod.snd heq⟩
  close := fun _ _ _ => tallies_done rfl
  describeEditor := fun _ _ heq => congrArg _ heq

def asked (thread : Thread) : Entry interface := .call Request.currentThread thread

theorem asked_injective : Function.Injective asked := by
  rintro thread _ ⟨⟩
  rfl

/-- An editor was opened for this thread, and nothing was asked for that. -/
def Gives (id : Int) (thread : Thread) (step : Step) (record : Record interface) : Prop :=
  OpenedFor asked id thread [] step record

theorem tells (label : String) (groups : List Group) :
    Tells (backend label groups) Gives fun thread editor =>
      editor = Editor.new groups thread where
  has := by
    intro σ system standard step table state id thread taken hgives
    obtain ⟨now, editor, hget, hvalue, -⟩ :=
      exists_of_openedFor (fun _ => rfl) asked_injective (fun _ _ _ _ => rfl) state hgives
    exact ⟨editor, hget, (Except.ok.inj hvalue).symm⟩
  gives := by
    intro σ system standard step table state id hopens taken hresult
    obtain ⟨thread, now, editor, -, hopened⟩ :=
      openedFor_of_opens asked (fun _ => rfl) hopens state hresult
    exact ⟨thread, hopened⟩

end Grouped

/-! ## The flat backend -/

namespace Flat

def Loan.unmarked (loan : Loan) : Loan := ⟨0, loan.set⟩

/-- An exchange without the tickets of the sets in it. -/
def unmarked : Exchange interface → Exchange interface
  | ⟨.allocate capacity, loan?⟩ => ⟨.allocate capacity, loan?.map Loan.unmarked⟩
  | ⟨.release loan, reply⟩ => ⟨.release loan.unmarked, reply⟩
  | ⟨.measure loan, size⟩ => ⟨.measure loan.unmarked, size⟩
  | ⟨.clear loan, set⟩ => ⟨.clear loan.unmarked, set⟩
  | ⟨.select p loan, set⟩ => ⟨.select p loan.unmarked, set⟩
  | ⟨.bind thread loan size, verdict⟩ => ⟨.bind thread loan.unmarked size, verdict⟩
  | exchange => exchange

/-- The same thread, and sets with the same contents. -/
def Editor.Alike (editor other : Editor) : Prop :=
  editor.thread = other.thread ∧ editor.loan.set = other.loan.set

variable {thread : Thread} {ticket number : Nat} {set : NativeSet}

theorem openFor_tallies (thread : Thread) :
    (Editor.openFor thread).Tallies unmarked (Editor.openFor thread)
      (Backend.OpenedAlike Editor.Alike) := by
  refine tallies_ask (fun _ _ => rfl) fun mine? yours? hreply => ?_
  have hlent : mine?.map Loan.unmarked = yours?.map Loan.unmarked :=
    eq_of_heq (Sigma.mk.inj hreply).2
  -- the view shows whether a set was lent and what it holds, which is all that counts here
  match mine?, yours?, hlent with
  | none, none, _ => exact tallies_done (.error _)
  | some ⟨ticket, set⟩, some ⟨number, other⟩, hlent =>
      obtain rfl : set = other := congrArg Loan.set (Option.some.inj hlent)
      simp only
      split
      · exact tallies_ask (fun _ _ => rfl) fun _ _ _ => tallies_done (.error _)
      · refine tallies_ask (fun _ _ => rfl) fun cleared other hreply => ?_
        obtain rfl : cleared = other := eq_of_heq (Sigma.mk.inj hreply).2
        exact tallies_done (.ok ⟨rfl, rfl⟩)

theorem select_tallies (p : Nat) :
    (Editor.select p ⟨thread, ⟨ticket, set⟩⟩).Tallies unmarked
      (Editor.select p ⟨thread, ⟨number, set⟩⟩) (Backend.WorkedAlike Editor.Alike) := by
  unfold Editor.select
  split
  · exact tallies_done ⟨rfl, rfl, rfl⟩
  · refine tallies_note rfl (tallies_ask (fun _ _ => rfl) fun after other hreply => ?_)
    obtain rfl : after = other := eq_of_heq (Sigma.mk.inj hreply).2
    exact tallies_done ⟨rfl, rfl, rfl⟩

theorem apply_tallies :
    (Editor.apply ⟨thread, ⟨ticket, set⟩⟩).Tallies unmarked
      (Editor.apply ⟨thread, ⟨number, set⟩⟩) (Backend.WorkedAlike Editor.Alike) := by
  refine tallies_ask (fun _ _ => rfl) fun size other hreply => ?_
  obtain rfl : size = other := eq_of_heq (Sigma.mk.inj hreply).2
  refine tallies_ask (fun _ _ => rfl) fun verdict other hreply => ?_
  obtain rfl : verdict = other := eq_of_heq (Sigma.mk.inj hreply).2
  cases verdict with
  | error cause => exact tallies_done ⟨rfl, rfl, rfl⟩
  | ok granted => exact tallies_note rfl (tallies_done ⟨rfl, rfl, rfl⟩)

theorem respects (label : String) : (backend label).Respects unmarked Editor.Alike where
  processorCount := tallies_ask (fun _ _ => rfl) fun _ _ hreply =>
    tallies_done (eq_of_heq (Sigma.mk.inj hreply).2)
  currentThread := tallies_ask (fun _ _ => rfl) fun _ _ hreply =>
    tallies_done (eq_of_heq (Sigma.mk.inj hreply).2)
  openEditor := openFor_tallies
  select := by
    rintro p ⟨thread, ticket, set⟩ ⟨_, number, _⟩ ⟨rfl, rfl⟩
    exact select_tallies p
  apply := by
    rintro ⟨thread, ticket, set⟩ ⟨_, number, _⟩ ⟨rfl, rfl⟩
    exact apply_tallies
  close := by
    rintro ⟨thread, ticket, set⟩ ⟨_, number, _⟩ ⟨rfl, rfl⟩
    exact tallies_ask (fun _ _ => rfl) fun _ _ _ => tallies_done rfl
  describeEditor := by
    rintro ⟨thread, ticket, set⟩ ⟨_, number, _⟩ ⟨rfl, rfl⟩
    rfl

def asked (thread : Thread) : Entry interface := .call Request.currentThread thread

theorem asked_injective : Function.Injective asked := by
  rintro thread _ ⟨⟩
  rfl

/-- An editor was opened for this thread, with a set that was lent and then emptied. What is
given is the thread and the set, as the system left it when it was emptied. -/
def Gives (id : Int) (given : Thread × NativeSet) (step : Step) (record : Record interface) :
    Prop :=
  ∃ loan : Loan, OpenedFor asked id given.1
    [.call (Request.allocate processorLimit) (some loan), .call (Request.clear loan) given.2]
    step record

theorem openFor_ok {σ : Type} {system : System interface σ} {now : σ} {editor : Editor}
    (h : ((Editor.openFor thread).run system now).value = .ok editor) :
    ∃ loan set, ((Editor.openFor thread).run system now).entries =
        [.call (.allocate processorLimit) (some loan), .call (.clear loan) set] ∧
      editor = ⟨thread, ⟨loan.ticket, set⟩⟩ := by
  obtain ⟨entries, value, after, hrun, hends⟩ := Editor.openFor_ends thread system now
  rw [hrun] at h ⊢
  generalize (system.answer (.allocate processorLimit) now).1 = lent? at hends
  cases hends with
  | notLent => cases h
  | tooSmall loan => cases h
  | opened loan _ later => exact ⟨loan, _, rfl, (Except.ok.inj h).symm⟩

theorem tells (label : String) :
    Tells (backend label) Gives fun given editor =>
      editor.thread = given.1 ∧ editor.loan.set = given.2 where
  has := by
    intro σ system standard step table state id given taken hgives
    obtain ⟨loan, hgives⟩ := hgives
    have hown : ∀ thread now editor, ((Editor.openFor thread).run system now).value = .ok editor →
        ((Editor.openFor thread).run system now).entries.length = 2 := by
      intro thread now editor hvalue
      obtain ⟨_, _, hentries, -⟩ := openFor_ok hvalue
      rw [hentries]
      rfl
    obtain ⟨now, editor, hget, hvalue, hentries⟩ :=
      exists_of_openedFor (fun _ => rfl) asked_injective hown state hgives
    refine ⟨editor, hget, ?_⟩
    obtain ⟨lent, set, hends, rfl⟩ := openFor_ok hvalue
    obtain ⟨⟩ := hends.symm.trans hentries
    exact ⟨rfl, rfl⟩
  gives := by
    intro σ system standard step table state id hopens taken hresult
    obtain ⟨thread, now, editor, hvalue, hopened⟩ :=
      openedFor_of_opens asked (fun _ => rfl) hopens state hresult
    obtain ⟨loan, set, hentries, -⟩ := openFor_ok hvalue
    refine ⟨(thread, set), loan, ?_⟩
    rwa [← hentries]

end Flat

/-! ## Both backends -/

/-- Editors do not interfere. Over either backend, whatever else happens in a session and
whatever the system is like, an editor comes to what it was given, what is done with it and
the replies to its own questions make of it; and no session leaves a trace in the backend. -/
theorem editors_do_not_interfere (label : String) (groups : List Group) :
    (Independent (Grouped.backend label groups) id Grouped.Gives ∧
      Traceless (Grouped.backend label groups) id ∧
      Steady (Grouped.backend label groups) (Group.total groups)) ∧
    Independent (Flat.backend label) Flat.unmarked Flat.Gives ∧
      Traceless (Flat.backend label) Flat.unmarked := by
  have hgrouped := Grouped.respects label groups
  have hflat := Flat.respects label
  refine ⟨⟨?_, traceless_of_respects hgrouped, steady_of_done rfl⟩, ?_, traceless_of_respects hflat⟩
  · refine independent_of_respects hgrouped (Grouped.tells label groups) ?_
    rintro thread _ _ rfl rfl
    rfl
  · refine independent_of_respects hflat (Flat.tells label) ?_
    rintro given editor other ⟨hthread, hset⟩ ⟨hother, hheld⟩
    exact ⟨hthread.trans hother.symm, hset.trans hheld.symm⟩

/-- A session about a single editor, whose first application is refused. -/
def quietStay : Stay Flat.interface Flat.Editor where
  State := Flat.Script
  system := Flat.scripted
  start := ⟨4, .caller, [], [], none, [.error (.code 5)], 0⟩
  standard := Flat.backend "standard"
  id := 0
  before := []
  opening := .openEditor 0 (.handle 7)
  after := [.select 0 5, .apply 0, .select 0 2000, .describeEditor 0, .apply 0, .close 0, .apply 0]

/-- A session in which the same is done with an editor that has to make room for itself, has
to ask for its thread and stands among others. -/
def busyStay : Stay Flat.interface Flat.Editor where
  State := Flat.Script
  system := Flat.scripted
  start := ⟨8, .handle 7, [], [3], none, [.ok (), .ok (), .error (.code 5)], 40⟩
  standard := Flat.backend "scripted"
  id := 5
  before := [.bindCurrent 3, .openEditor 2 .caller, .openEditor 5 .worker]
  opening := .openCurrent 5
  after := [.select 2 1, .select 5 5, .bindThread (.handle 1) 9, .apply 5, .select 5 2000,
    .processorCount, .apply 2, .describeEditor 5, .close 2, .apply 5, .openEditor 2 .worker,
    .close 5, .apply 5, .select 2 6, .openEditor 5 (.handle 8), .select 5 1]

/-- The editor of the busy session comes to what the other one comes to, although its set
has another ticket. -/
theorem editors_do_not_interfere_in_busy_session :
    quietStay.Given (Flat.backend "scripted") Flat.Gives
        (.handle 7, (NativeSet.ofCapacity processorLimit).clear) ∧
      busyStay.Given (Flat.backend "scripted") Flat.Gives
        (.handle 7, (NativeSet.ofCapacity processorLimit).clear) ∧
      (quietStay.part (Flat.backend "scripted")).map Prod.fst =
        (busyStay.part (Flat.backend "scripted")).map Prod.fst ∧
      Agree Flat.unmarked
        (repliesIn ((quietStay.part (Flat.backend "scripted")).map Prod.snd))
        (repliesIn ((busyStay.part (Flat.backend "scripted")).map Prod.snd)) ∧
      (quietStay.part (Flat.backend "scripted")).map (fun own => own.2.seen Flat.unmarked) =
        (busyStay.part (Flat.backend "scripted")).map (fun own => own.2.seen Flat.unmarked) := by
  have hquiet : quietStay.Given (Flat.backend "scripted") Flat.Gives
      (.handle 7, (NativeSet.ofCapacity processorLimit).clear) :=
    ⟨_, rfl, _, rfl, rfl, rfl, [], rfl⟩
  have hbusy : busyStay.Given (Flat.backend "scripted") Flat.Gives
      (.handle 7, (NativeSet.ofCapacity processorLimit).clear) :=
    ⟨_, rfl, _, rfl, rfl, [_], rfl⟩
  have hdeeds : (quietStay.part (Flat.backend "scripted")).map Prod.fst =
      (busyStay.part (Flat.backend "scripted")).map Prod.fst := rfl
  have hagree : Agree Flat.unmarked
      (repliesIn ((quietStay.part (Flat.backend "scripted")).map Prod.snd))
      (repliesIn ((busyStay.part (Flat.backend "scripted")).map Prod.snd)) := .of_map_eq rfl
  obtain ⟨-, hflat, -⟩ := editors_do_not_interfere "scripted" []
  exact ⟨hquiet, hbusy, hdeeds, hagree,
    hflat.same quietStay busyStay _ hquiet hbusy hdeeds hagree⟩

end ThreadAffinity
