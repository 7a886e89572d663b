import ThreadAffinity.Flat.Backend
import ThreadAffinity.Flat.Script
import ThreadAffinity.Grouped.Script
import ThreadAffinity.Proofs.Flat.Turn
import ThreadAffinity.Proofs.Grouped.Account
import ThreadAffinity.Proofs.Session.Account
import ThreadAffinity.Proofs.Topology.RoundTrip

/-!
# The log against what was done

A transcript has the log and the requests side by side, and the log is truthful if it can be told
from the requests. Every binding that the system granted is reported once, in order and with what
was bound, and nothing else is reported as a binding. Which way a binding came about makes no
difference: the editor was told to apply, it had to leave its group, or a thread was bound in one
go.

Truthfulness is kept when transcripts are put together (`Truthful.append`), so it is enough to look
at the ends of each operation. From there it gets to sessions as an account that may be begun anew
with every step (`Session.reported_run`). For the group backend the account includes that the
open editors are in order, as a group is found from where the editor stands.
-/

namespace ThreadAffinity

variable {I : Interface} {E σ : Type}

/-! ## Logs -/

/-- The fields of the events of this level with this message, in order. -/
def logged (level : Level) (message : String) (entries : List (Entry I)) :
    List (List (String × String)) :=
  ((eventsOf entries).filter fun event => event.level = level ∧ event.message = message).map
    Event.fields

theorem logged_append (level : Level) (message : String) (front back : List (Entry I)) :
    logged level message (front ++ back) =
      logged level message front ++ logged level message back := by
  simp only [logged, eventsOf, List.filterMap_append, List.filter_append, List.map_append]

theorem logged_self (event : Event) :
    logged event.level event.message [(.event event : Entry I)] = [event.fields] := by
  simp [logged, eventsOf, Entry.event?]

theorem logged_of_ne {level : Level} {event : Event} (h : event.level ≠ level) (message : String) :
    logged level message [(.event event : Entry I)] = [] := by
  simp [logged, eventsOf, Entry.event?, h]

theorem callsOf_append {α : Type} (write : (request : I.Request) → I.Reply request → Option α)
    (front back : List (Entry I)) :
    callsOf write (front ++ back) = callsOf write front ++ callsOf write back :=
  List.filterMap_append

namespace Session

/-- The log is as in `truthful`: for each step, for the closing and for the session as a whole. -/
structure Reported (truthful : List (Entry I) → Prop) (history : History I) : Prop where
  step : ∀ record ∈ history.records, truthful record.entries
  closing : truthful history.closing
  whole : truthful history.entries

theorem reported_run {system : System I σ} {good : Nat → Prop}
    {Inv : List E → List (Entry I) → σ → Prop} {truthful : List (Entry I) → Prop}
    (setup : Setup I E) (h : setup.backend.Accounts system good Inv)
    (hstandard : setup.standard.Accounts system good Inv)
    (hanew : ∀ {editors H state}, Inv editors H state → Inv editors [] state)
    (htruthful : ∀ {editors H state}, Inv editors H state → truthful H) (steps : List Step)
    {state : σ} (hstart : Inv [] [] state) :
    Reported truthful (run setup system steps state) := by
  obtain ⟨hrecords, last, hclosing⟩ := run_accounts_each setup h hstandard hanew steps state hstart
  obtain ⟨-, after, hwhole⟩ := run_accounts setup h hstandard steps state hstart
  refine ⟨fun record hrecord => ?_, htruthful hclosing, htruthful hwhole⟩
  obtain ⟨editors, after, hstep⟩ := hrecords record hrecord
  exact htruthful hstep

end Session

/-! ## The flat backend -/

namespace Flat

/-- What the log has to say of a binding that was granted: the thread, and the processors in the
set that was handed over. -/
def applied? : (request : Request) → Reply request → Option (List (String × String))
  | .bind thread loan _, .ok () =>
    some [("thread", thread.display), ("processors", CpuList.print loan.set.members)]
  | _, _ => none

def added? : (request : Request) → Reply request → Option Nat
  | .select p _, _ => some p
  | _, _ => none

/-- Bindings are reported just as they were granted, and processors as they were put into a set. -/
structure Truthful (entries : List (Entry interface)) : Prop where
  applied_eq : logged .debug "thread affinity applied" entries = callsOf applied? entries
  added_eq : (logged .trace "adding processor to pending affinity" entries).map
    (·.lookup "processor") = (callsOf added? entries).map fun p => some (toString p)

variable {front back : List (Entry interface)}

theorem truthful_nil : Truthful [] := ⟨rfl, rfl⟩

theorem Truthful.append (hfront : Truthful front) (hback : Truthful back) :
    Truthful (front ++ back) where
  applied_eq := by rw [logged_append, callsOf_append, hfront.applied_eq, hback.applied_eq]
  added_eq := by
    rw [logged_append, callsOf_append, List.map_append, List.map_append, hfront.added_eq,
      hback.added_eq]

theorem truthful_of_error {event : Event} (h : event.level = .error) :
    Truthful [.event event] where
  applied_eq := logged_of_ne (by rw [h]; decide) _
  added_eq := by
    rw [logged_of_ne (by rw [h]; decide)]
    rfl

namespace Editor

theorem openFor_truthful (thread : Thread) (system : System interface σ) (state : σ) :
    Truthful ((openFor thread).run system state).entries := by
  obtain ⟨entries, value, after, hrun, hopened⟩ := openFor_ends thread system state
  rw [hrun]
  generalize (system.answer (.allocate processorLimit) state).1 = loan? at hopened
  cases hopened with
  | notLent => exact ⟨rfl, rfl⟩
  | tooSmall loan h => exact ⟨rfl, rfl⟩
  | opened loan h now => exact ⟨rfl, rfl⟩

theorem select_truthful (e : Editor) (p : Nat) (system : System interface σ) (state : σ) :
    Truthful ((e.select p).run system state).entries := by
  obtain ⟨entries, result, kept, after, hrun, hselected⟩ := select_ends e p system state
  rw [hrun]
  cases hselected with
  | beyond hle => exact truthful_nil
  | taken hlt now =>
      constructor
      · rfl
      · exact congrArg (List.map (List.lookup "processor"))
          (logged_self (I := interface) (.processorAdded e.thread p))

theorem apply_truthful (e : Editor) (system : System interface σ) (state : σ) :
    Truthful (e.apply.run system state).entries := by
  obtain ⟨entries, result, kept, after, hrun, happlied⟩ := apply_ends e system state
  rw [hrun]
  cases happlied with
  | refused size cause => exact ⟨rfl, rfl⟩
  | granted size =>
      exact ⟨logged_self (.affinityApplied e.thread e.loan.set.members), rfl⟩

/-- A processor below the limit is accepted and reported once, and any other is neither. -/
theorem select_logged (e : Editor) (p : Nat) (system : System interface σ) (state : σ) :
    let selected := (e.select p).run system state
    (selected.value.1 = .ok () ↔ p < 1024) ∧
      logged .trace "adding processor to pending affinity" selected.entries =
        if p < 1024 then [[("thread", e.thread.display), ("processor", toString p)]] else [] := by
  obtain ⟨entries, result, kept, after, hrun, hselected⟩ := select_ends e p system state
  rw [hrun]
  cases hselected with
  | beyond hle =>
      have hnot : ¬ p < 1024 := Nat.not_lt.mpr hle
      rw [if_neg hnot]
      exact ⟨iff_of_false nofun hnot, rfl⟩
  | taken hlt now =>
      have hlt : p < 1024 := hlt
      rw [if_pos hlt]
      exact ⟨iff_of_true rfl hlt, logged_self (I := interface) (.processorAdded e.thread p)⟩

end Editor

theorem accounts_truthful (label : String) (system : System interface σ) :
    (backend label).Accounts system (fun _ => True) fun _ H _ => Truthful H where
  perm := fun _ h => h
  note := fun _ herror h => h.append (truthful_of_error herror)
  processorCount := fun _ _ _ h => h.append ⟨rfl, rfl⟩
  currentThread := fun _ _ _ h => h.append ⟨rfl, rfl⟩
  openEditor := fun thread _ _ state h => h.append (Editor.openFor_truthful thread system state)
  select := fun p e _ _ state h =>
    ⟨fun _ => trivial, h.append (e.select_truthful p system state)⟩
  apply := fun e _ _ state h => h.append (e.apply_truthful system state)
  close := fun _ _ _ _ h => h.append ⟨rfl, rfl⟩

end Flat

/-! ## The group backend -/

namespace Grouped

open ThreadAffinity.Group

variable {groups : List Group}

/-- What the log has to say of a binding that was granted: the thread, the group and the mask. -/
def applied? : (request : Request) → Reply request → Option (List (String × String))
  | .bind thread affinity, .ok () =>
    some [("thread", thread.display), ("group", toString affinity.group),
      ("mask", toString affinity.mask.toNat)]
  | _, _ => none

/-- Bindings are reported just as they were granted, and a group that is reported for a processor
owns it, with the first processor that is reported along with it. -/
structure Truthful (groups : List Group) (entries : List (Entry interface)) : Prop where
  applied_eq : logged .debug "thread group affinity applied" entries = callsOf applied? entries
  found : ∀ fields ∈ logged .trace "found processor group" entries, ∃ p g,
    fields = [("processor", toString p), ("group", toString g),
      ("group_start", toString (startOf groups g))] ∧ Owns groups g p

variable {front back : List (Entry interface)}

theorem truthful_nil : Truthful groups [] := ⟨rfl, fun _ h => absurd h List.not_mem_nil⟩

theorem Truthful.append (hfront : Truthful groups front) (hback : Truthful groups back) :
    Truthful groups (front ++ back) where
  applied_eq := by rw [logged_append, callsOf_append, hfront.applied_eq, hback.applied_eq]
  found := by
    intro fields hfields
    rw [logged_append] at hfields
    rcases List.mem_append.mp hfields with hfields | hfields
    · exact hfront.found fields hfields
    · exact hback.found fields hfields

/-- A request that is not granted needs no report. -/
theorem truthful_of_call {request : Request} {reply : Reply request}
    (h : applied? request reply = none) : Truthful groups [.call request reply] where
  applied_eq := by simp [logged, eventsOf, callsOf, Entry.event?, h]
  found := fun _ hfields => absurd hfields List.not_mem_nil

theorem truthful_of_error {event : Event} (h : event.level = .error) :
    Truthful groups [.event event] where
  applied_eq := logged_of_ne (by rw [h]; decide) _
  found := by
    rw [logged_of_ne (by rw [h]; decide)]
    exact fun _ hfields => absurd hfields List.not_mem_nil

theorem truthful_of_owns {p g : Nat} (h : Owns groups g p) :
    Truthful groups [.event (.groupFound p g (startOf groups g))] where
  applied_eq := rfl
  found := by
    intro fields hfields
    have hlogged := logged_self (I := interface) (.groupFound p g (startOf groups g))
    exact ⟨p, g, List.mem_singleton.mp (hlogged ▸ hfields), h⟩

namespace Editor

variable {e : Editor} {p : Nat} {entries : List (Entry interface)}

theorem truthful_leaving (e : Editor) : Truthful groups e.leaving := by
  by_cases h : e.pending.mask = 0
  · rw [leaving, due_of_zero h]
    exact truthful_nil
  · rw [leaving, due_of_ne_zero h]
    exact ⟨logged_self (.groupApplied e.thread e.index e.pending.mask),
      fun _ hfields => absurd hfields List.not_mem_nil⟩

theorem Applied.truthful {applied : Except Error Unit × Editor} (h : Applied e entries applied) :
    Truthful groups entries := by
  cases h with
  | nothing h => exact truthful_nil
  | refused h cause => exact truthful_of_call rfl
  | granted h => exact truthful_leaving e

theorem Selected.truthful {selected : Except Error Unit × Editor}
    (h : Selected p e entries selected) : Truthful e.groups entries := by
  cases h with
  | refused hstart hout hne cause => exact truthful_of_call rfl
  | moved g i hg hseat => exact (truthful_leaving e).append (truthful_of_owns hseat.owns)
  | movedUnseated g hg hown ha => exact (truthful_leaving e).append (truthful_of_owns hown)
  | beyond hbeyond => exact truthful_leaving e
  | _ => exact truthful_nil

end Editor

/-- What was written down is truthful, and the open editors are in order. -/
def Sincere (groups : List Group) : List Editor → List (Entry interface) → Prop :=
  Backend.Orderly (Editor.Fit groups) (Truthful groups)

theorem accounts_sincere (few : groups.length < groupNumberLimit) (label : String)
    (system : System interface σ) :
    (backend label groups).Accounts system (Addressable groups)
      fun editors H _ => Sincere groups editors H := by
  refine accounts_orderly few label system ?_ ?_ ?_ ?_
  · exact fun H event herror h => h.append (truthful_of_error herror)
  · exact fun H thread h => h.append (truthful_of_call rfl)
  · rintro H p e entries selected rfl hselected h
    exact h.append hselected.truthful
  · exact fun H e entries applied _ happlied h => h.append happlied.truthful

end Grouped

/-! ## Sessions -/

/-- Whatever is done in a session and whatever the system replies, the log of each step tells
exactly what was granted and nothing else. With the flat backend, selecting is reported once if
it is accepted, which it is below the limit; with the group backend, a group that was found is
the one that owns the processor. -/
theorem log_tells_truth {bytes : List UInt8} {groups : List Group}
    (haccepted : Topology.decode bytes = .ok groups) (label other : String) :
    (∀ (σ : Type) (system : System Flat.interface σ) (steps : List Session.Step) (state : σ),
      Session.Reported Flat.Truthful
        (Session.run ⟨Flat.backend label, Flat.backend other⟩ system steps state)) ∧
    (∀ (σ : Type) (system : System Flat.interface σ) (state : σ) (e : Flat.Editor) (p : Nat),
      let selected := ((Flat.backend label).select p e).run system state
      (selected.value.1 = .ok () ↔ p < 1024) ∧
        logged .trace "adding processor to pending affinity" selected.entries =
          if p < 1024 then [[("thread", e.thread.display), ("processor", toString p)]] else []) ∧
    ∀ (σ : Type) (system : System Grouped.interface σ) (steps : List Session.Step) (state : σ),
      Session.Reported (Grouped.Truthful groups)
        (Session.run ⟨Grouped.backend label groups, Grouped.backend other groups⟩ system steps
          state) := by
  have few : groups.length < Grouped.groupNumberLimit := (Topology.length_of_decode haccepted).2
  refine ⟨fun σ system steps state => ?_, fun σ system state e p => ?_,
    fun σ system steps state => ?_⟩
  · exact Session.reported_run ⟨Flat.backend label, Flat.backend other⟩
      (Flat.accounts_truthful label system) (Flat.accounts_truthful other system)
      (fun _ => Flat.truthful_nil) (fun h => h) steps Flat.truthful_nil
  · exact e.select_logged p system state
  · exact Session.reported_run ⟨Grouped.backend label groups, Grouped.backend other groups⟩
      (Grouped.accounts_sincere few label system) (Grouped.accounts_sincere few other system)
      (fun h => ⟨h.editors, Grouped.truthful_nil⟩) (fun h => h.written) steps
      ⟨nofun, Grouped.truthful_nil⟩

/-- Bindings come about in every way there is: an editor is told to apply or leaves its group, and
a thread is bound in one go. The second binding is refused, and some steps fail before the system
is asked. -/
theorem log_tells_truth_in_busy_sessions :
    let groups : List Group := [⟨2, 3⟩, ⟨2, 0xa⟩]
    let steps : List Session.Step :=
      [.openEditor 0 (.handle 7), .select 0 1, .apply 0, .select 0 3, .apply 0, .select 0 3,
        .select 0 1024, .tryBind 2000, .bindThreadTo .caller (.word 6)]
    let flat := Session.run ⟨Flat.backend "scripted", Flat.backend "scripted"⟩ Flat.scripted steps
      ⟨4, .caller, [], [], none, [.ok (), .error (.code 22)], 0⟩
    let grouped := Session.run
      ⟨Grouped.backend "scripted" groups, Grouped.backend "scripted" groups⟩ Grouped.scripted steps
      ⟨[], .caller, (.ok (), 0), (.ok (), 0), true, [.ok (), .error (.code 5)]⟩
    Topology.decode (Topology.groupRecord groups) = .ok groups ∧
      Session.Reported Flat.Truthful flat ∧
      logged .debug "thread affinity applied" flat.entries =
        [[("thread", "thread 0x7"), ("processors", "1")],
          [("thread", "thread self"), ("processors", "1,2")]] ∧
      Session.Reported (Grouped.Truthful groups) grouped ∧
      logged .debug "thread group affinity applied" grouped.entries =
        [[("thread", "thread 0x7"), ("group", "0"), ("mask", "2")],
          [("thread", "thread 0x7"), ("group", "0"), ("mask", "2")],
          [("thread", "thread 0x7"), ("group", "0"), ("mask", "2")],
          [("thread", "thread 0x7"), ("group", "1"), ("mask", "8")],
          [("thread", "thread self"), ("group", "0"), ("mask", "2")],
          [("thread", "thread self"), ("group", "1"), ("mask", "2")]] := by
  intro groups steps flat grouped
  have haccepted : Topology.decode (Topology.groupRecord groups) = .ok groups :=
    Topology.decode_groupRecord (by decide) (by decide)
  obtain ⟨hflat, -, hgrouped⟩ := log_tells_truth haccepted "scripted" "scripted"
  exact ⟨haccepted, hflat _ _ _ _, by decide +kernel, hgrouped _ _ _ _, by decide +kernel⟩

end ThreadAffinity
