import ThreadAffinity.Proofs.Flat.Selection
import ThreadAffinity.Proofs.Linux.Block
import ThreadAffinity.Proofs.NativeSet.Bytes

/-!
# The part of the block that the kernel reads

Neither the room of a set nor the size that is reported for it can be relied on: both may be
given from outside, and the size anew for each application. Still the kernel is never told to
read beyond the end of the block, and in what it reads it finds exactly the accepted processors
that have a bit there, also where the size ends within a word.

`Fills` is what is known of an editor. It holds after opening, for a set with too little room is
not kept, and every move keeps it (`Fills.make`), whatever the kernel replies. What happens in a
move is a `Turn`, in which an application says what it hands over (`HandsPrefix`).
-/

namespace ThreadAffinity

namespace Linux

open Backend

variable {σ : Type} {label : String} {thread : Thread} {a z p size : Nat} {block : NativeSet}
  {editor : Flat.Editor} {H : List (Happening interface)} {accepted : Nat → Prop}

/-- The backend whose sets have room for `a` processors, and which reports `z` bytes for each. -/
def reporting (label : String) (a z : Nat) : Backend interface Flat.Editor :=
  backend label ⟨some a, some z⟩

/-! ## Moves -/

theorem openEditor_reporting (label : String) (a z : Nat) (thread : Thread) :
    (reporting label a z).openEditor thread =
      .done (if (NativeSet.ofCapacity a).capacity < processorLimit then
        .error (.setAllocation processorLimit)
      else .ok ⟨thread, ⟨0, (NativeSet.ofCapacity a).clear⟩⟩) := by
  change (Flat.Editor.openFor thread).through (serve ⟨some a, some z⟩) = _
  by_cases hsmall : (NativeSet.ofCapacity a).capacity < processorLimit
  · rw [if_pos hsmall]
    simp only [Flat.Editor.openFor, Dialogue.through, serve, Option.getD_some, Dialogue.bind,
      if_pos hsmall]
  · rw [if_neg hsmall]
    simp only [Flat.Editor.openFor, Dialogue.through, serve, Option.getD_some, Dialogue.bind,
      if_neg hsmall]

theorem select_of_le (hp : processorLimit ≤ p) (label : String) (options : Options)
    (editor : Flat.Editor) :
    (backend label options).select p editor = .done (.error (.beyondLimit p), editor) := by
  change (Flat.Editor.select p editor).through (serve options) = _
  rw [Flat.Editor.select, if_pos hp]
  rfl

theorem concluded_keeps (editor : Flat.Editor) (status : Int) (system : System interface σ)
    (state : σ) : ((concluded editor status).run system state).value.2 = editor := by
  unfold concluded
  split
  · rfl
  · rfl

/-! ## What is handed over -/

/-- The kernel is told to read `size` bytes of a block. This is what was reported, unless the
block has less; and bit `i` of these bytes is set exactly if processor `i` was accepted and lies
within them. -/
structure HandsPrefix (a z : Nat) (accepted : Nat → Prop) (size : Nat) (block : NativeSet) :
    Prop where
  size_eq : size = min z (8 * ((a + 63) / 64))
  byteSize_eq : block.byteSize = 8 * ((a + 63) / 64)
  length_eq : block.bytes.length = block.byteSize
  within : size ≤ block.byteSize
  reads : ∀ i, NativeSet.bitAt (block.bytes.take size) i = true ↔ accepted i ∧ i < 8 * size

theorem HandsPrefix.mem_membersWithin_iff (h : HandsPrefix a z accepted size block) :
    p ∈ block.membersWithin size ↔ accepted p ∧ p < 8 * size :=
  (NativeSet.mem_membersWithin_iff block size p).trans (h.reads p)

/-- What happens while a move is made, these processors being accepted before. -/
inductive Turn (a z : Nat) (thread : Thread) (accepted : Nat → Prop) :
    Move → List (Happening interface) → Prop
  | beyond (p : Nat) (h : 1024 ≤ p) :
      Turn a z thread accepted (.select p) [.answered (.select p) (.error (.outOfRange p 1023))]
  | taken (p : Nat) (h : p < 1024) :
      Turn a z thread accepted (.select p) [.answered (.select p) (.ok ())]
  | applied (size : Nat) (block : NativeSet) (status : Int)
      (h : HandsPrefix a z accepted size block) :
      Turn a z thread accepted .apply
        [.asked (.setAffinity thread size block) status,
          .answered .apply
            (if status = 0 then .ok () else .error (.refused .setAffinity (.code status)))]

/-- The editor's block has the words that there have to be, room for all processors in use, and
selects exactly the accepted ones. -/
structure Fills (a : Nat) (thread : Thread) (editor : Flat.Editor)
    (H : List (Happening interface)) : Prop where
  thread_eq : editor.thread = thread
  size_eq : editor.loan.set.words.size = (a + 63) / 64
  room : 1024 ≤ editor.loan.set.capacity
  contains_iff : ∀ p, editor.loan.set.contains p = true ↔ Accepted H p

theorem fills_opened (h : 1024 ≤ (NativeSet.ofCapacity a).capacity) :
    Fills a thread ⟨thread, ⟨0, (NativeSet.ofCapacity a).clear⟩⟩ [] where
  thread_eq := rfl
  size_eq := by rw [NativeSet.size_words_clear, NativeSet.ofCapacity, Words.size_zeros]
  room := by
    rwa [NativeSet.capacity_clear]
  contains_iff := fun p => by
    rw [NativeSet.contains_clear]
    exact iff_of_false Bool.false_ne_true (not_accepted_nil p)

theorem Fills.handsPrefix (h : Fills a thread editor H) (z : Nat) :
    HandsPrefix a z (Accepted H) (min z editor.loan.set.byteSize) editor.loan.set where
  size_eq := by rw [NativeSet.byteSize, h.size_eq]
  byteSize_eq := by rw [NativeSet.byteSize, h.size_eq]
  length_eq := NativeSet.length_bytes _
  within := Nat.min_le_right _ _
  reads := fun i => by
    rw [NativeSet.bitAt_take, NativeSet.bitAt_bytes, Bool.and_eq_true, decide_eq_true_eq,
      h.contains_iff, and_comm]

/-- An editor that is left as it is fits to any history with no more acceptances. -/
theorem Fills.append (h : Fills a thread editor H) {turn : List (Happening interface)}
    (hturn : ∀ p, ¬ Accepted turn p) : Fills a thread editor (H ++ turn) where
  thread_eq := h.thread_eq
  size_eq := h.size_eq
  room := h.room
  contains_iff := fun p => by
    rw [h.contains_iff, Accepted, Accepted, List.mem_append]
    exact (or_iff_left (hturn p)).symm

theorem Fills.taken (h : Fills a thread editor H) (hp : p < 1024) :
    Fills a thread (editor.holding (editor.loan.set.insert p).2)
      (H ++ [.answered (.select p) (.ok ())]) where
  thread_eq := h.thread_eq
  size_eq := (NativeSet.size_words_insert _ p).trans h.size_eq
  room := by
    rw [Flat.Editor.holding, NativeSet.capacity_insert]
    exact h.room
  contains_iff := fun q => by
    rw [Flat.Editor.holding, Flat.contains_insert_iff h.room hp, h.contains_iff, accepted_concat]
    simp

theorem Fills.apply (h : Fills a thread editor H) (label : String) (z : Nat)
    (system : System interface σ) (state : σ) :
    let made := ((reporting label a z).apply editor).run system state
    Turn a z thread (Accepted H) .apply (happeningsOf .apply made.value.1 made.entries) ∧
      Fills a thread made.value.2 (H ++ happeningsOf .apply made.value.1 made.entries) := by
  rw [reporting, apply_eq_ask]
  simp only [Option.getD_some, Dialogue.run_ask]
  generalize system.answer _ state = reply
  obtain ⟨status, after⟩ := reply
  obtain ⟨hvalue, hrest⟩ := concluded_run editor status system after
  rw [hvalue, concluded_keeps, happeningsOf, exchangesOf_call, hrest, h.thread_eq]
  exact ⟨.applied _ _ status (h.handsPrefix z), h.append fun p => by simp [Accepted]⟩

theorem Fills.select (h : Fills a thread editor H) (label : String) (z p : Nat)
    (system : System interface σ) (state : σ) :
    let made := ((reporting label a z).select p editor).run system state
    Turn a z thread (Accepted H) (.select p)
        (happeningsOf (.select p) made.value.1 made.entries) ∧
      Fills a thread made.value.2 (H ++ happeningsOf (.select p) made.value.1 made.entries) := by
  rcases Nat.lt_or_ge p processorLimit with hlt | hge
  · rw [reporting, select_of_lt hlt]
    exact ⟨.taken p hlt, h.taken hlt⟩
  · rw [reporting, select_of_le hge]
    exact ⟨.beyond p hge, h.append fun q => by simp [Accepted, happeningsOf]⟩

theorem Fills.make (h : Fills a thread editor H) (label : String) (z : Nat) (move : Move)
    (system : System interface σ) (state : σ) :
    let made := ((reporting label a z).make move editor).run system state
    Turn a z thread (Accepted H) move (happeningsOf move made.value.1 made.entries) ∧
      Fills a thread made.value.2 (H ++ happeningsOf move made.value.1 made.entries) := by
  cases move with
  | select p => exact h.select label z p system state
  | apply => exact h.apply label z system state

/-! ## Every course -/

/-- Moves over sets with room for `a` processors, each with the size that is reported then. -/
def reported (label : String) (a : Nat) (moves : List (Nat × Move)) :
    List (Backend interface Flat.Editor × Move) :=
  moves.map fun step => (reporting label a step.1, step.2)

theorem Fills.course (h : Fills a thread editor H) (label : String) (moves : List (Nat × Move))
    (system : System interface σ) (state : σ) :
    let course := courseThrough system (reported label a moves) editor state
    Fills a thread course.editor (H ++ course.happenings) := by
  induction moves generalizing editor H state with
  | nil => simpa [reported, courseThrough] using h
  | cons step moves ih =>
      obtain ⟨z, move⟩ := step
      have hmade := (h.make label z move system state).2
      have hrest := ih hmade (((reporting label a z).make move editor).run system state).state
      dsimp only at hrest
      rwa [List.append_assoc] at hrest

theorem le_capacity_ofCapacity_iff : 1024 ≤ (NativeSet.ofCapacity a).capacity ↔ 961 ≤ a := by
  rw [NativeSet.capacity, NativeSet.ofCapacity, Words.size_zeros, NativeSet.capacityLimit]
  omega

theorem opened_reporting (label : String) (a z : Nat) (thread : Thread)
    (system : System interface σ) (state : σ) :
    let opened := ((reporting label a z).openEditor thread).run system state
    ((∃ editor, opened.value = .ok editor) ↔ 961 ≤ a) ∧
      ∀ editor, opened.value = .ok editor → Fills a thread editor [] := by
  rw [openEditor_reporting, Dialogue.run_done, ← le_capacity_ofCapacity_iff]
  by_cases hsmall : (NativeSet.ofCapacity a).capacity < processorLimit
  · rw [if_pos hsmall]
    exact ⟨⟨nofun, fun hroom => absurd hsmall (Nat.not_lt.mpr hroom)⟩, nofun⟩
  · rw [if_neg hsmall]
    have hroom := Nat.le_of_not_lt hsmall
    refine ⟨⟨fun _ => hroom, fun _ => ⟨_, rfl⟩⟩, fun editor hok => ?_⟩
    obtain rfl := Except.ok.inj hok
    exact fills_opened hroom

/-- With room for `a` processors an editor opens exactly if whole words have room for all in use.
Whatever was done with it since, and whatever sizes were reported, the next application asks the
kernel to read no more than was reported now and no more than the block has. What the kernel
reads there selects exactly the processors that were accepted so far and have a bit in it. -/
theorem course_hands_over_prefix (label : String) (thread : Thread) (a first : Nat)
    (system : System interface σ) (state : σ) :
    let opened := ((reporting label a first).openEditor thread).run system state
    ((∃ editor, opened.value = .ok editor) ↔ 961 ≤ a) ∧
      ∀ editor, opened.value = .ok editor → ∀ (moves : List (Nat × Move)) (z : Nat) (move : Move),
        let history := fun moves =>
          (courseThrough system (reported label a moves) editor opened.state).happenings
        ∃ turn, Turn a z thread (Accepted (history moves)) move turn ∧
          history (moves ++ [(z, move)]) = history moves ++ turn := by
  intro opened
  obtain ⟨hopens, hfills⟩ := opened_reporting label a first thread system state
  refine ⟨hopens, fun editor heditor moves z move => ?_⟩
  intro history
  have hcourse := (hfills editor heditor).course label moves system opened.state
  obtain ⟨hturn, -⟩ := hcourse.make label z move system
    (courseThrough system (reported label a moves) editor opened.state).state
  refine ⟨_, hturn, ?_⟩
  have hconcat := happenings_courseThrough_concat (reporting label a z) move system
    (reported label a moves) editor opened.state
  simpa only [history, reported, List.map_append, List.map_cons, List.map_nil] using hconcat

/-- Sizes are reported that end within a word and beyond the block, and the kernel refuses the
first application. -/
theorem course_hands_over_prefix_within_word :
    let kernel : Script := ⟨8, none, [22]⟩
    let opened := ((reporting "scripted" 1000 0).openEditor (.handle 7)).run scripted kernel
    let moves : List (Nat × Move) :=
      [(0, .select 5), (0, .select 103), (500, .apply), (0, .select 104), (0, .select 2000)]
    ∃ editor, opened.value = .ok editor ∧
      let history := fun moves =>
        (courseThrough scripted (reported "scripted" 1000 moves) editor opened.state).happenings
      ∃ turn, Turn 1000 13 (.handle 7) (Accepted (history moves)) .apply turn ∧
        history (moves ++ [(13, .apply)]) = history moves ++ turn := by
  intro kernel opened moves
  obtain ⟨hopens, hcourse⟩ :=
    course_hands_over_prefix "scripted" (.handle 7) 1000 0 scripted kernel
  obtain ⟨editor, heditor⟩ := hopens.mpr (by decide)
  exact ⟨editor, heditor, hcourse editor heditor moves 13 .apply⟩

end Linux

end ThreadAffinity
