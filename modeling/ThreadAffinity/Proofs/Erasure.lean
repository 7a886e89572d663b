import ThreadAffinity.Flat.Backend
import ThreadAffinity.Grouped.Backend
import ThreadAffinity.Grouped.Script
import ThreadAffinity.Proofs.Flat.Turn
import ThreadAffinity.Proofs.Grouped.Turn
import ThreadAffinity.Proofs.Tally
import ThreadAffinity.Proofs.Topology.RoundTrip

/-!
# Moves that leave no trace

Applying hands over what an editor holds and keeps it, and most ways in which a selection
can fail are found out before the editor has changed. Moves like these are `Idle`. The
exception is a processor that is not found after the editor has left its group for it, which
is why a processor that is not found has to lie `within` reach of the editor.

With a backend that `Forgets` idle moves they make no difference. The editor is the same
afterwards, so that applying again asks for the same again. And they can be left out: the moves
that are left come to the same results, ask the same questions and find the editor in the same
state, as long as the system gives the same replies to these questions.

Only the first of this has to be seen for a backend (`KeepsEditor`). The rest is an induction
on the moves: a move that is not left out is made with the same editor in both courses, and one
dialogue that gets the same replies runs the same (`Dialogue.tallies_self`).
-/

namespace ThreadAffinity

/-- The second list is the first one without some of its elements, all of which are as `P`
has them. -/
inductive LeavesOut {α : Type} (P : α → Prop) : List α → List α → Prop
  | nil : LeavesOut P [] []
  | keep {xs ys : List α} (x : α) (h : LeavesOut P xs ys) : LeavesOut P (x :: xs) (x :: ys)
  | drop {xs ys : List α} {x : α} (hx : P x) (h : LeavesOut P xs ys) : LeavesOut P (x :: xs) ys

namespace Backend

variable {I : Interface} {E σ τ : Type}

/-! ## Rounds -/

/-- A move as it was made: the editor before and after it, the result and the transcript. -/
structure Round (I : Interface) (E : Type) where
  move : Move
  before : E
  after : E
  result : Except Error Unit
  entries : List (Entry I)

def Round.happenings (round : Round I E) : List (Happening I) :=
  happeningsOf round.move round.result round.entries

def round (backend : Backend I E) (system : System I σ) (move : Move) (editor : E) (state : σ) :
    Round I E :=
  let made := (backend.make move editor).run system state
  ⟨move, editor, made.value.2, made.value.1, made.entries⟩

theorem round_eq (backend : Backend I E) (move : Move) {system : System I σ} {editor kept : E}
    {state after : σ} {result : Except Error Unit} {entries : List (Entry I)}
    (hrun : (backend.make move editor).run system state = ⟨(result, kept), after, entries⟩) :
    backend.round system move editor state = ⟨move, editor, kept, result, entries⟩ := by
  rw [round, hrun]

theorem move_round (backend : Backend I E) (system : System I σ) (move : Move) (editor : E)
    (state : σ) : (backend.round system move editor state).move = move := rfl

def rounds (backend : Backend I E) (system : System I σ) : List Move → E → σ → List (Round I E)
  | [], _, _ => []
  | move :: moves, editor, state =>
    let made := (backend.make move editor).run system state
    backend.round system move editor state ::
      backend.rounds system moves made.value.2 made.state

theorem happenings_course (backend : Backend I E) (system : System I σ) (moves : List Move)
    (editor : E) (state : σ) :
    (backend.course system moves editor state).happenings =
      (backend.rounds system moves editor state).flatMap Round.happenings := by
  induction moves generalizing editor state with
  | nil => rfl
  | cons move moves ih => simp only [course, rounds, List.flatMap_cons, ih]; rfl

/-- The editors that can come about: opened, whatever the system replied, and after any moves,
whatever the system replied to them. -/
inductive Reachable (backend : Backend I E) : E → Prop
  | opened {σ : Type} {editor : E} (thread : Thread) (system : System I σ) (state : σ)
      (h : ((backend.openEditor thread).run system state).value = .ok editor) :
      Reachable backend editor
  | moved {σ : Type} {editor : E} (h : Reachable backend editor) (move : Move)
      (system : System I σ) (state : σ) :
      Reachable backend ((backend.make move editor).run system state).value.2

/-! ## Idle moves -/

/-- The move applied, or it was refused without anything being changed for it: out of range,
out of order, for a refusal of the system, or since a processor `within` reach has no seat. -/
def Round.Idle (within : E → Nat → Prop) (round : Round I E) : Prop :=
  match round.move, round.result with
  | .apply, _ => True
  | .select _, .error (.outOfRange _ _) => True
  | .select _, .error (.orderViolation _ _) => True
  | .select _, .error (.refused _ _) => True
  | .select p, .error (.notFound _) => within round.before p
  | .select _, _ => False

def KeepsEditor (backend : Backend I E) (within : E → Nat → Prop) : Prop :=
  ∀ editor, backend.Reachable editor → ∀ {σ : Type} (system : System I σ) move state,
    (backend.round system move editor state).Idle within →
      (backend.round system move editor state).after = editor

/-- What applying asks for is a matter of the editor alone, whatever came before. -/
def AppliesBy (backend : Backend I E) (asks : E → List (Exchange I) → Prop) : Prop :=
  ∀ editor, backend.Reachable editor → ∀ {σ : Type} (system : System I σ) state,
    asks editor (exchangesOf (backend.round system .apply editor state).entries)

/-- Idle moves leave no trace: not in the editor, not in what is asked for when applying is
repeated, and not in the other moves of a course. -/
structure Forgets (backend : Backend I E) (within : E → Nat → Prop)
    (asks : E → List (Exchange I) → Prop) : Prop where
  unchanged : backend.KeepsEditor within
  repeats : ∀ editor, backend.Reachable editor → ∀ {σ : Type} (system : System I σ) state n,
    ∀ round ∈ backend.rounds system (List.replicate n .apply) editor state,
      round.before = editor ∧ asks editor (exchangesOf round.entries)
  erases : ∀ editor, backend.Reachable editor →
    ∀ {σ τ : Type} (system : System I σ) (other : System I τ) moves state now kept,
      LeavesOut (Round.Idle within) (backend.rounds system moves editor state) kept →
      Agree id (exchangesOf (kept.flatMap Round.entries))
        (exchangesOf
          ((backend.rounds other (kept.map Round.move) editor now).flatMap Round.entries)) →
      backend.rounds other (kept.map Round.move) editor now = kept ∧
        (backend.course other (kept.map Round.move) editor now).happenings =
          kept.flatMap Round.happenings

variable {backend : Backend I E} {within : E → Nat → Prop}
  {asks : E → List (Exchange I) → Prop} {editor : E}

theorem rounds_replicate (hkeeps : backend.KeepsEditor within) (hasks : backend.AppliesBy asks)
    (hreach : backend.Reachable editor) (system : System I σ) (state : σ) (n : Nat) :
    ∀ round ∈ backend.rounds system (List.replicate n .apply) editor state,
      round.before = editor ∧ asks editor (exchangesOf round.entries) := by
  induction n generalizing state with
  | zero => exact fun _ hround => absurd hround List.not_mem_nil
  | succ n ih =>
      have hkept : ((backend.make .apply editor).run system state).value.2 = editor :=
        hkeeps editor hreach system .apply state trivial
      intro round hround
      rw [List.replicate_succ, rounds, hkept] at hround
      rcases List.mem_cons.mp hround with rfl | hrest
      · exact ⟨rfl, hasks editor hreach system state⟩
      · exact ih _ round hrest

theorem rounds_of_leavesOut (hkeeps : backend.KeepsEditor within)
    (hreach : backend.Reachable editor) (system : System I σ) (other : System I τ)
    (moves : List Move) (state : σ) (now : τ) (kept : List (Round I E))
    (hleaves : LeavesOut (Round.Idle within) (backend.rounds system moves editor state) kept)
    (hagree : Agree id (exchangesOf (kept.flatMap Round.entries))
      (exchangesOf
        ((backend.rounds other (kept.map Round.move) editor now).flatMap Round.entries))) :
    backend.rounds other (kept.map Round.move) editor now = kept := by
  -- both runs come to a kept move with the same editor, but in different states of the systems
  induction moves generalizing editor state now kept with
  | nil =>
      cases hleaves
      rfl
  | cons move moves ih =>
      have hafter := hreach.moved move system state
      rw [rounds] at hleaves
      cases hleaves with
      | @keep _ kept _ hrest =>
          simp only [List.map_cons, move_round, rounds, List.flatMap_cons] at hagree ⊢
          -- the same dialogue with the same editor, so the round is the same
          obtain ⟨hentries, hvalue, hbehind⟩ :=
            (Dialogue.tallies_self (backend.make move editor)).front hagree
          rw [Entry.map_seen_id, Entry.map_seen_id] at hentries
          have hround : backend.round other move editor now =
              backend.round system move editor state := by
            simp only [round, hentries, hvalue]
          rw [← hvalue] at hbehind ⊢
          rw [hround, ih hafter _ _ kept hrest hbehind]
      | drop hidle hrest =>
          have hkept : ((backend.make move editor).run system state).value.2 = editor :=
            hkeeps editor hreach system move state hidle
          rw [hkept] at hrest
          exact ih hreach _ now kept hrest hagree

theorem forgets_of_keepsEditor (hkeeps : backend.KeepsEditor within)
    (hasks : backend.AppliesBy asks) : backend.Forgets within asks where
  unchanged := hkeeps
  repeats := fun _ hreach _ system state n => rounds_replicate hkeeps hasks hreach system state n
  erases := by
    intro editor hreach σ τ system other moves state now kept hleaves hagree
    have hrounds := rounds_of_leavesOut hkeeps hreach system other moves state now kept hleaves
      hagree
    rw [happenings_course, hrounds]
    exact ⟨rfl, rfl⟩

end Backend

/-! ## The flat backend -/

namespace Flat

open Backend

/-- The set is measured, and the thread bound to as much of it. -/
def HandsOver (e : Editor) (exchanges : List (Exchange interface)) : Prop :=
  ∃ size verdict,
    exchanges = [⟨.measure e.loan, size⟩, ⟨.bind e.thread e.loan size, verdict⟩]

theorem keepsEditor (label : String) : (backend label).KeepsEditor fun _ _ => False := by
  intro e _ σ system move state hidle
  cases move with
  | apply =>
      obtain ⟨entries, result, kept, after, hrun, happlied⟩ := e.apply_ends system state
      rw [Backend.round_eq (backend label) .apply hrun]
      cases happlied <;> rfl
  | select p =>
      obtain ⟨entries, result, kept, after, hrun, hselected⟩ := e.select_ends p system state
      rw [Backend.round_eq (backend label) (.select p) hrun] at hidle ⊢
      cases hselected with
      | beyond hp => rfl
      | taken hp now => exact hidle.elim

theorem appliesBy_handsOver (label : String) : (backend label).AppliesBy HandsOver := by
  intro e _ σ system state
  obtain ⟨entries, result, kept, after, hrun, happlied⟩ := e.apply_ends system state
  rw [Backend.round_eq (backend label) .apply hrun]
  cases happlied with
  | refused size cause => exact ⟨size, .error cause, rfl⟩
  | granted size => exact ⟨size, .ok (), rfl⟩

end Flat

/-! ## The group backend -/

namespace Grouped

open ThreadAffinity.Group Backend

variable {groups : List Group} {e : Editor}

/-- The thread is bound to what waits, if anything does. -/
def HandsOver (e : Editor) (exchanges : List (Exchange interface)) : Prop :=
  ∃ verdict, exchanges = e.due.map fun affinity => ⟨.bind e.thread affinity, verdict⟩

theorem standing_of_reachable (few : groups.length < groupNumberLimit) {label : String}
    (h : (backend label groups).Reachable e) : e.Standing ∧ e.groups = groups := by
  induction h with
  | opened thread system state h =>
      cases h
      exact ⟨Editor.standing_new thread few, rfl⟩
  | @moved σ e h move system state ih =>
      obtain ⟨he, hgroups⟩ := ih
      cases move with
      | select p =>
          have hselected := Editor.select_run he p system state
          exact ⟨hselected.standing he, hselected.groups_eq.trans hgroups⟩
      | apply =>
          have hkept : (((backend label groups).make .apply e).run system state).value.2 = e :=
            (Editor.apply_run he system state).editor_eq
          rw [hkept]
          exact ⟨he, hgroups⟩

theorem keepsEditor (few : groups.length < groupNumberLimit) (label : String) :
    (backend label groups).KeepsEditor fun e p => Owns groups e.index p := by
  intro e hreach σ system move state hidle
  obtain ⟨he, rfl⟩ := standing_of_reachable few hreach
  cases move with
  | apply => exact (Editor.apply_run he system state).editor_eq
  | select p =>
      obtain ⟨entries, result, kept, after, hrun, hselected⟩ :=
        Editor.select_ends he p system state
      rw [Backend.round_eq (backend label e.groups) (.select p) hrun] at hidle ⊢
      cases hselected with
      | late hlate => rfl
      | joined i hseat => exact hidle.elim
      | unseated hown ha => rfl
      | refused hstart hout hne cause => rfl
      | moved g i hg hseat => exact hidle.elim
      | movedUnseated g hg hown ha =>
          have hwithin : Owns e.groups e.index p := hidle
          exact absurd (hwithin.unique hown) (Nat.ne_of_lt hg)
      | beyond hbeyond =>
          have hwithin : Owns e.groups e.index p := hidle
          exact absurd hwithin.lt_total (Nat.not_lt.mpr hbeyond)

theorem appliesBy_handsOver (few : groups.length < groupNumberLimit) (label : String) :
    (backend label groups).AppliesBy HandsOver := by
  intro e hreach σ system state
  obtain ⟨he, rfl⟩ := standing_of_reachable few hreach
  obtain ⟨entries, result, kept, after, hrun, happlied⟩ := Editor.apply_ends he system state
  rw [Backend.round_eq (backend label e.groups) .apply hrun]
  unfold HandsOver
  cases happlied with
  | nothing hzero =>
      rw [Editor.due_of_zero hzero]
      exact ⟨.ok (), rfl⟩
  | refused hne cause =>
      rw [Editor.due_of_ne_zero hne]
      exact ⟨.error cause, rfl⟩
  | granted hne =>
      rw [Editor.exchangesOf_leaving]
      exact ⟨.ok (), rfl⟩

end Grouped

/-! ## Both -/

/-- Over both backends applying, and failing to select for a reason that is found out in time,
leaves no trace. The flat backend always finds out in time, the group backend unless it has to
leave a group for the processor. -/
theorem idle_moves_leave_no_trace {bytes : List UInt8} {groups : List Group}
    (haccepted : Topology.decode bytes = .ok groups) (label : String) :
    (Flat.backend label).Forgets (fun _ _ => False) Flat.HandsOver ∧
      (Grouped.backend label groups).Forgets (fun e p => Group.Owns groups e.index p)
        Grouped.HandsOver := by
  have few : groups.length < Grouped.groupNumberLimit := (Topology.length_of_decode haccepted).2
  exact ⟨Backend.forgets_of_keepsEditor (Flat.keepsEditor label) (Flat.appliesBy_handsOver label),
    Backend.forgets_of_keepsEditor (Grouped.keepsEditor few label)
      (Grouped.appliesBy_handsOver few label)⟩

/-- The system refuses the first application and grants what leaving the group asks for. Without
the two applications it grants the same, to the same selections. -/
theorem idle_moves_leave_no_trace_among_refusals :
    let groups : List Group := [⟨2, 3⟩, ⟨2, 0xa⟩]
    let backend := Grouped.backend "scripted" groups
    let editor := Grouped.Editor.new groups (.handle 7)
    let waiting : Grouped.Editor := { editor with pending := ⟨1, some 0⟩ }
    let refusing : Grouped.Script :=
      ⟨[], .caller, (.ok (), 0), (.ok (), 0), true, [.error (.code 5)]⟩
    let granting : Grouped.Script := { refusing with verdicts := [] }
    let kept := [backend.round Grouped.scripted (.select 0) editor refusing,
      backend.round Grouped.scripted (.select 9) waiting granting]
    Topology.decode (Topology.groupRecord groups) = .ok groups ∧ backend.Reachable editor ∧
      LeavesOut (Backend.Round.Idle fun e p => Group.Owns groups e.index p)
        (backend.rounds Grouped.scripted [.select 0, .apply, .select 9, .apply] editor refusing)
        kept ∧
      backend.rounds Grouped.scripted [.select 0, .select 9] editor granting = kept := by
  intro groups backend editor waiting refusing granting kept
  have haccepted : Topology.decode (Topology.groupRecord groups) = .ok groups :=
    Topology.decode_groupRecord (by decide) (by decide)
  have hreach : backend.Reachable editor := .opened (.handle 7) Grouped.scripted refusing rfl
  have hrounds :
      backend.rounds Grouped.scripted [.select 0, .apply, .select 9, .apply] editor refusing =
        [backend.round Grouped.scripted (.select 0) editor refusing,
          backend.round Grouped.scripted .apply waiting refusing,
          backend.round Grouped.scripted (.select 9) waiting granting,
          backend.round Grouped.scripted .apply { editor with index := 2, start := 4 }
            granting] := by
    -- numbers compute only where nothing in them is abbreviated
    dsimp +zetaDelta only
    rfl
  have hleaves : LeavesOut (Backend.Round.Idle fun e p => Group.Owns groups e.index p)
      (backend.rounds Grouped.scripted [.select 0, .apply, .select 9, .apply] editor refusing)
      kept := by
    rw [hrounds]
    exact .keep _ (.drop trivial (.keep _ (.drop trivial .nil)))
  have hagree : exchangesOf (kept.flatMap Backend.Round.entries) =
      exchangesOf ((backend.rounds Grouped.scripted (kept.map Backend.Round.move) editor
        granting).flatMap Backend.Round.entries) := by
    dsimp +zetaDelta only
    rfl
  have hforgets := (idle_moves_leave_no_trace haccepted "scripted").2
  exact ⟨haccepted, hreach, hleaves, (hforgets.erases editor hreach Grouped.scripted
    Grouped.scripted _ refusing granting kept hleaves (.of_map_eq (congrArg _ hagree))).1⟩

end ThreadAffinity
