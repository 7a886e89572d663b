import ThreadAffinity.Flat.Backend
import ThreadAffinity.Flat.Script
import ThreadAffinity.Proofs.Course
import ThreadAffinity.Proofs.Flat.Turn

/-!
# What a flat editor hands over

A flat editor can be used in any order: select, apply, select more and apply again. Each
time it hands over exactly the processors that were selected so far and are below the
limit. What was in the set when it was lent is gone, nothing that was accepted is missing,
and neither how often it was applied before nor what came of that makes a difference.

`Selects` is what is known of the set after some moves. It holds after opening
(`selects_opened`) since only a set with room for all is kept and it is emptied first, and
every move keeps it (`Selects.make`), whatever the system replies.
-/

namespace ThreadAffinity

namespace Flat

open Backend

variable {σ : Type} {system : System interface σ} {thread : Thread} {ticket : Nat} {e : Editor}
  {moves : List Move}

/-- Clearing a set and selecting in it are left as they are by default. -/
structure Plain (system : System interface σ) : Prop where
  clear : ∀ loan state, (system.answer (.clear loan) state).1 = loan.set.clear
  select : ∀ p loan state, (system.answer (.select p loan) state).1 = (loan.set.insert p).2

theorem plain_scripted : Plain scripted := ⟨fun _ _ => rfl, fun _ _ _ => rfl⟩

/-- The set selects exactly the processors below the limit that these moves select, and
has room for all of them. -/
structure Selects (set : NativeSet) (moves : List Move) : Prop where
  room : 1024 ≤ set.capacity
  contains_iff : ∀ p, set.contains p = true ↔ p < 1024 ∧ .select p ∈ moves

/-- What happens while a move is made, the editor's set being the one on loan. -/
inductive Turn (thread : Thread) (loan : Loan) : Move → List (Happening interface) → Prop
  | beyond (p : Nat) (h : 1024 ≤ p) :
      Turn thread loan (.select p) [.answered (.select p) (.error (.outOfRange p 1023))]
  | taken (p : Nat) (h : p < 1024) (set : NativeSet) :
      Turn thread loan (.select p)
        [.asked (.select p loan) set, .answered (.select p) (.ok ())]
  | refused (size : Nat) (cause : Refusal) :
      Turn thread loan .apply
        [.asked (.measure loan) size, .asked (.bind thread loan size) (.error cause),
          .answered .apply (.error (.refused .setAffinity cause))]
  | granted (size : Nat) :
      Turn thread loan .apply
        [.asked (.measure loan) size, .asked (.bind thread loan size) (.ok ()),
          .answered .apply (.ok ())]

/-! ## The set of an editor -/

theorem lt_room_of_capacity {set : NativeSet} {p : Nat} (hroom : 1024 ≤ set.capacity)
    (hp : p < 1024) : p < Words.room set.words := by
  simp only [NativeSet.capacity, Words.room] at hroom ⊢
  omega

/-- A set with room for all processors in use leaves none of them out. -/
theorem contains_insert_iff {set : NativeSet} {p : Nat} (hroom : 1024 ≤ set.capacity)
    (hp : p < 1024) (q : Nat) :
    (set.insert p).2.contains q = true ↔ set.contains q = true ∨ p = q := by
  have hfits : (set.insert p).1 = true := decide_eq_true (lt_room_of_capacity hroom hp)
  rw [NativeSet.contains_insert, hfits, Bool.true_and, Bool.or_eq_true, decide_eq_true_eq]

theorem selects_clear {set : NativeSet} (h : 1024 ≤ set.capacity) : Selects set.clear [] where
  room := by
    rwa [NativeSet.capacity_clear]
  contains_iff := fun p => by
    rw [NativeSet.contains_clear]
    simp

theorem selects_opened (hplain : Plain system) {loan : Loan}
    (h : processorLimit ≤ loan.set.capacity) (now : σ) :
    Selects (system.answer (.clear loan) now).1 [] := by
  rw [hplain.clear]
  exact selects_clear h

theorem Selects.insert {set : NativeSet} {p : Nat} (h : Selects set moves) (hp : p < 1024) :
    Selects (set.insert p).2 (moves ++ [.select p]) where
  room := by
    rw [NativeSet.capacity_insert]
    exact h.room
  contains_iff := fun q => by
    rw [contains_insert_iff h.room hp, h.contains_iff q, List.mem_append, List.mem_singleton,
      Move.select.injEq]
    constructor
    · rintro (⟨hq, hmem⟩ | rfl)
      · exact ⟨hq, Or.inl hmem⟩
      · exact ⟨hp, Or.inr rfl⟩
    · rintro ⟨hq, hmem | rfl⟩
      · exact Or.inl ⟨hq, hmem⟩
      · exact Or.inr rfl

/-- A move that selects nothing below the limit leaves the set as it should be. -/
theorem Selects.concat {set : NativeSet} {move : Move} (h : Selects set moves)
    (hmove : ∀ p < 1024, move ≠ .select p) : Selects set (moves ++ [move]) where
  room := h.room
  contains_iff := fun p => by
    rw [h.contains_iff p, List.mem_append, List.mem_singleton]
    exact and_congr_right fun hp => (or_iff_left (hmove p hp).symm).symm

/-- The editor of a thread over a borrowed set, after some moves. -/
structure Collects (thread : Thread) (ticket : Nat) (e : Editor) (moves : List Move) : Prop where
  thread_eq : e.thread = thread
  ticket_eq : e.loan.ticket = ticket
  selects : Selects e.loan.set moves

/-! ## Opening -/

variable {lent : Option Loan} {entries : List (Entry interface)}

theorem opens_iff {value : Except Error Editor}
    (h : Editor.Opened system thread lent entries value) :
    (∃ editor, value = .ok editor) ↔ ∃ loan, lent = some loan ∧ 1024 ≤ loan.set.capacity := by
  cases h with
  | notLent => exact ⟨nofun, nofun⟩
  | tooSmall loan hsmall =>
      refine ⟨nofun, ?_⟩
      rintro ⟨other, hother, hlarge⟩
      obtain rfl := Option.some.inj hother
      exact absurd hlarge (Nat.not_le.mpr hsmall)
  | opened loan hlarge now => exact ⟨fun _ => ⟨loan, rfl, hlarge⟩, fun _ => ⟨_, rfl⟩⟩

theorem eq_setAllocation_of_opened {error : Error}
    (h : Editor.Opened system thread lent entries (.error error)) :
    error = .setAllocation 1024 ∧
      exchangesOf entries =
        ⟨.allocate 1024, lent⟩ :: lent.toList.map fun loan => ⟨.release loan, ()⟩ := by
  cases h with
  | notLent => exact ⟨rfl, rfl⟩
  | tooSmall loan hsmall => exact ⟨rfl, rfl⟩

theorem collects_of_opened (hplain : Plain system)
    (h : Editor.Opened system thread lent entries (.ok e)) :
    ∃ loan, lent = some loan ∧
      exchangesOf entries = [⟨.allocate 1024, some loan⟩, ⟨.clear loan, loan.set.clear⟩] ∧
      Collects thread loan.ticket e [] := by
  cases h with
  | opened loan hlarge now =>
      have hset := selects_opened hplain hlarge now
      refine ⟨loan, rfl, ?_, rfl, rfl, hset⟩
      rw [hplain.clear]
      rfl

/-! ## One move -/

theorem Collects.select (h : Collects thread ticket e moves) (hplain : Plain system) (p : Nat)
    (state : σ) :
    let made := (e.select p).run system state
    Turn thread ⟨ticket, e.loan.set⟩ (.select p)
        (happeningsOf (.select p) made.value.1 made.entries) ∧
      Collects thread ticket made.value.2 (moves ++ [.select p]) := by
  obtain ⟨rfl, rfl, hset⟩ := h
  obtain ⟨entries, result, kept, after, hrun, hselected⟩ := e.select_ends p system state
  rw [hrun]
  cases hselected with
  | beyond hp =>
      refine ⟨.beyond p hp, rfl, rfl, hset.concat ?_⟩
      rintro q hq heq
      obtain rfl := Move.select.inj heq
      exact absurd hp (Nat.not_le.mpr hq)
  | taken hp now =>
      refine ⟨.taken p hp _, rfl, rfl, ?_⟩
      rw [Editor.holding, hplain.select]
      exact hset.insert hp

theorem Collects.apply (h : Collects thread ticket e moves) (state : σ) :
    let made := e.apply.run system state
    Turn thread ⟨ticket, e.loan.set⟩ .apply (happeningsOf .apply made.value.1 made.entries) ∧
      Collects thread ticket made.value.2 (moves ++ [.apply]) := by
  obtain ⟨rfl, rfl, hset⟩ := h
  obtain ⟨entries, result, kept, after, hrun, happlied⟩ := e.apply_ends system state
  rw [hrun]
  cases happlied with
  | refused size cause => exact ⟨.refused size cause, rfl, rfl, hset.concat nofun⟩
  | granted size => exact ⟨.granted size, rfl, rfl, hset.concat nofun⟩

theorem Collects.make (h : Collects thread ticket e moves) (hplain : Plain system)
    (label : String) (move : Move) (state : σ) :
    let made := ((backend label).make move e).run system state
    Turn thread ⟨ticket, e.loan.set⟩ move (happeningsOf move made.value.1 made.entries) ∧
      Collects thread ticket made.value.2 (moves ++ [move]) := by
  cases move with
  | select p => exact h.select hplain p state
  | apply => exact h.apply state

/-! ## Every course -/

theorem Collects.course (h : Collects thread ticket e moves) (hplain : Plain system)
    (label : String) (more : List Move) (state : σ) :
    Collects thread ticket ((backend label).course system more e state).editor (moves ++ more) := by
  induction more generalizing e moves state with
  | nil => simpa [Backend.course] using h
  | cons move more ih =>
      have hmade := (h.make hplain label move state).2
      have hrest := ih hmade (((backend label).make move e).run system state).state
      rwa [List.append_assoc] at hrest

/-- Whatever was done with an editor since it was opened, the next move goes as it should. -/
theorem Collects.turn (h : Collects thread ticket e []) (hplain : Plain system) (label : String)
    (moves : List Move) (move : Move) (state : σ) :
    ∃ set turn, Selects set moves ∧ Turn thread ⟨ticket, set⟩ move turn ∧
      ((backend label).course system (moves ++ [move]) e state).happenings =
        ((backend label).course system moves e state).happenings ++ turn := by
  have hcourse := h.course hplain label moves state
  rw [List.nil_append] at hcourse
  have hmade := hcourse.make hplain label move ((backend label).course system moves e state).state
  refine ⟨_, _, hcourse.selects, hmade.1, ?_⟩
  rw [course_append]
  simp only [Backend.course, List.append_nil]

/-- A refused application is reported with the native code, or with -1 if there is none. -/
theorem message_refused_setAffinity (cause : Refusal) :
    (Error.refused .setAffinity cause).message =
      "pthread_setaffinity_np failed with status " ++ toString (match cause with
        | .code status => status
        | .uncoded => -1) := by
  cases cause with
  | code status => rfl
  | uncoded => rfl

/-- Opening works exactly if a set with room for all processors is lent, and otherwise
leaves every set alone. Whatever is done with the editor then, and whatever the system
replies, the next move asks what it should and gets the result it should, and the set that
it hands over selects exactly what was selected so far. -/
theorem course_selects_exactly (hplain : Plain system) (label : String) (thread : Thread)
    (state : σ) :
    let lent := (system.answer (.allocate 1024) state).1
    let opened := ((backend label).openEditor thread).run system state
    ((∃ editor, opened.value = .ok editor) ↔
        ∃ loan, lent = some loan ∧ 1024 ≤ loan.set.capacity) ∧
      (∀ error, opened.value = .error error → error = .setAllocation 1024 ∧
        exchangesOf opened.entries =
          ⟨.allocate 1024, lent⟩ :: lent.toList.map fun loan => ⟨.release loan, ()⟩) ∧
      (∀ editor, opened.value = .ok editor → ∃ loan, lent = some loan ∧
        exchangesOf opened.entries =
          [⟨.allocate 1024, some loan⟩, ⟨.clear loan, loan.set.clear⟩] ∧
        ∀ moves move, ∃ set turn, Selects set moves ∧ Turn thread ⟨loan.ticket, set⟩ move turn ∧
          ((backend label).course system (moves ++ [move]) editor opened.state).happenings =
            ((backend label).course system moves editor opened.state).happenings ++ turn) ∧
      ∀ cause, (Error.refused .setAffinity cause).message =
        "pthread_setaffinity_np failed with status " ++ toString (match cause with
          | .code status => status
          | .uncoded => -1) := by
  intro lent opened
  obtain ⟨entries, value, after, hrun, hends⟩ := Editor.openFor_ends thread system state
  replace hrun : opened = ⟨value, after, entries⟩ := hrun
  replace hends : Editor.Opened system thread lent entries value := hends
  rw [hrun]
  refine ⟨opens_iff hends, ?_, ?_, message_refused_setAffinity⟩
  · rintro error (rfl : value = .error error)
    exact eq_setAllocation_of_opened hends
  · rintro editor (rfl : value = .ok editor)
    obtain ⟨loan, hlent, hexchanges, hcollects⟩ := collects_of_opened hplain hends
    refine ⟨loan, hlent, hexchanges, fun moves move => ?_⟩
    exact hcollects.turn hplain label moves move after

/-- A set with room for 1100 processors and processor 3 in it is lent, and the system
refuses the first application without a code. -/
theorem course_selects_exactly_prefilled :
    let opened := ((backend "scripted").openEditor (.handle 7)).run scripted
      ⟨4, .caller, [some 1100], [3], none, [.error .uncoded], 0⟩
    Plain scripted ∧ ∃ editor, opened.value = .ok editor ∧ ∃ set turn,
      Selects set [.select 5, .apply, .select 2000, .select 6] ∧
        Turn (.handle 7) ⟨0, set⟩ .apply turn ∧
        ((backend "scripted").course scripted [.select 5, .apply, .select 2000, .select 6, .apply]
            editor opened.state).happenings =
          ((backend "scripted").course scripted [.select 5, .apply, .select 2000, .select 6]
            editor opened.state).happenings ++ turn := by
  intro opened
  obtain ⟨hopens, -, hcourse, -⟩ := course_selects_exactly plain_scripted "scripted" (.handle 7)
    (⟨4, .caller, [some 1100], [3], none, [.error .uncoded], 0⟩ : Script)
  obtain ⟨editor, heditor⟩ := hopens.mpr ⟨_, rfl, by decide⟩
  obtain ⟨loan, hloan, -, hturn⟩ := hcourse editor heditor
  obtain rfl := Option.some.inj hloan
  exact ⟨plain_scripted, editor, heditor, hturn _ .apply⟩

end Flat

end ThreadAffinity
