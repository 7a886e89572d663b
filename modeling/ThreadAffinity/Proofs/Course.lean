import ThreadAffinity.Backend

/-!
# Courses of an editor

What a caller does with one editor is a list of moves: it selects processors and
applies, in any order, and goes on whatever a move comes to. A course is what
happens meanwhile, in the order in which it happens: each question the system was
asked with the reply it got, and each move with its result. The questions of a move
stand before the move's own result.

A law about a course mostly says something about each happening in terms of what
happened before it. `Throughout` is that shape; `throughout_concat` extends such a
law by one happening, which is how a law is carried along a course.
-/

namespace ThreadAffinity

variable {I : Interface} {E σ α : Type}

/-! ## Exchanges -/

/-- The questions of a transcript with their replies, in order. -/
def exchangesOf (entries : List (Entry I)) : List ((request : I.Request) × I.Reply request) :=
  entries.filterMap fun
    | .call request reply => some ⟨request, reply⟩
    | .event _ => none

@[simp] theorem exchangesOf_nil : exchangesOf ([] : List (Entry I)) = [] := rfl

@[simp] theorem exchangesOf_call (request : I.Request) (reply : I.Reply request)
    (entries : List (Entry I)) :
    exchangesOf (.call request reply :: entries) = ⟨request, reply⟩ :: exchangesOf entries := rfl

@[simp] theorem exchangesOf_event (event : Event) (entries : List (Entry I)) :
    exchangesOf (.event event :: entries) = exchangesOf entries := rfl

@[simp] theorem exchangesOf_append (front back : List (Entry I)) :
    exchangesOf (front ++ back) = exchangesOf front ++ exchangesOf back :=
  List.filterMap_append

theorem mem_of_mem_exchangesOf {entries : List (Entry I)} {request : I.Request}
    {reply : I.Reply request} (h : ⟨request, reply⟩ ∈ exchangesOf entries) :
    .call request reply ∈ entries := by
  obtain ⟨entry, hentry, heq⟩ := List.mem_filterMap.mp h
  cases entry with
  | call asked replied =>
      cases Option.some.inj heq
      exact hentry
  | event noted => cases heq

/-- The replies are those of the system, to one question after the other, and `after` is the
state that it is left in. -/
def Replied (system : System I σ) :
    σ → List ((request : I.Request) × I.Reply request) → σ → Prop
  | state, [], after => after = state
  | state, exchange :: exchanges, after =>
    exchange.2 = (system.answer exchange.1 state).1 ∧
      Replied system (system.answer exchange.1 state).2 exchanges after

theorem Dialogue.run_replied (system : System I σ) (d : Dialogue I α) (state : σ) :
    Replied system state (exchangesOf (d.run system state).entries) (d.run system state).state := by
  induction d generalizing state with
  | done value => exact rfl
  | ask request next ih => exact ⟨rfl, ih _ _⟩
  | note event rest ih => exact ih state

/-! ## Laws about what went before -/

/-- Everything in a list stands in a relation to what comes before it. -/
def Throughout (P : List α → α → Prop) (l : List α) : Prop :=
  ∀ before x after, l = before ++ x :: after → P before x

theorem throughout_nil (P : List α → α → Prop) : Throughout P [] := by
  intro before x after h
  simp at h

theorem throughout_concat {P : List α → α → Prop} {l : List α} {x : α} (hl : Throughout P l)
    (hx : P l x) : Throughout P (l ++ [x]) := by
  intro before y after h
  rcases List.eq_nil_or_concat after with rfl | ⟨after, z, rfl⟩
  · obtain ⟨rfl, hxy⟩ := List.append_inj' h rfl
    obtain rfl := List.singleton_inj.mp hxy
    exact hx
  · have h' : l ++ [x] = (before ++ y :: after) ++ [z] := by simpa using h
    exact hl before y after (List.append_inj' h' rfl).1

/-! ## Courses -/

namespace Backend

/-- One thing a caller does with an editor. -/
inductive Move where
  /-- Selects a processor. -/
  | select (processor : Nat)
  /-- Applies what was selected. -/
  | apply
deriving Repr, DecidableEq

def make (backend : Backend I E) : Move → E → Dialogue I (Except Error Unit × E)
  | .select processor, editor => backend.select processor editor
  | .apply, editor => backend.apply editor

inductive Happening (I : Interface) where
  /-- The system was asked and replied. -/
  | asked (request : I.Request) (reply : I.Reply request)
  /-- A move came to a result. -/
  | answered (move : Move) (result : Except Error Unit)

/-- What happens while a move is made: its questions, then its result. -/
def happeningsOf (move : Move) (result : Except Error Unit) (entries : List (Entry I)) :
    List (Happening I) :=
  (exchangesOf entries).map (fun exchange => .asked exchange.1 exchange.2) ++
    [.answered move result]

theorem answered_mem_happeningsOf {move other : Move}
    {result answer : Except Error Unit} {entries : List (Entry I)}
    (h : .answered other answer ∈ happeningsOf move result entries) : answer = result := by
  rcases List.mem_append.mp h with hasked | hlast
  · obtain ⟨exchange, -, heq⟩ := List.mem_map.mp hasked
    cases heq
  · cases List.mem_singleton.mp hlast
    rfl

/-- Where a list of moves leads: what happened, the editor and the state of the system. -/
structure Course (I : Interface) (E σ : Type) where
  happenings : List (Happening I)
  editor : E
  state : σ

/-- Makes the moves of a list in order, whatever each of them comes to. -/
def course (backend : Backend I E) (system : System I σ) : List Move → E → σ → Course I E σ
  | [], editor, state => ⟨[], editor, state⟩
  | move :: moves, editor, state =>
    let made := (backend.make move editor).run system state
    let rest := backend.course system moves made.value.2 made.state
    { rest with happenings := happeningsOf move made.value.1 made.entries ++ rest.happenings }

/-- Moves made one list after another are moves made in one list. -/
theorem course_append (backend : Backend I E) (system : System I σ) (front back : List Move)
    (editor : E) (state : σ) :
    backend.course system (front ++ back) editor state =
      let first := backend.course system front editor state
      let second := backend.course system back first.editor first.state
      { second with happenings := first.happenings ++ second.happenings } := by
  induction front generalizing editor state with
  | nil => rfl
  | cons move front ih => simp only [List.cons_append, course, ih, List.append_assoc]

def Accepted (happenings : List (Happening I)) (p : Nat) : Prop :=
  .answered (.select p) (.ok ()) ∈ happenings

theorem not_accepted_nil (p : Nat) : ¬ Accepted ([] : List (Happening I)) p :=
  List.not_mem_nil

theorem accepted_concat {H : List (Happening I)} {x : Happening I} {p : Nat} :
    Accepted (H ++ [x]) p ↔ Accepted H p ∨ x = .answered (.select p) (.ok ()) := by
  rw [Accepted, List.mem_append, List.mem_singleton, Accepted, eq_comm (a := x)]

/-- A relation between an editor and what happened so far that every single move keeps
is kept by every list of moves. -/
theorem course_invariant {backend : Backend I E} {system : System I σ}
    {Inv : E → List (Happening I) → Prop}
    (hmove : ∀ move editor H state, Inv editor H →
      let made := (backend.make move editor).run system state
      Inv made.value.2 (H ++ happeningsOf move made.value.1 made.entries))
    (moves : List Move) {editor : E} {H : List (Happening I)} (state : σ)
    (h : Inv editor H) :
    let course := backend.course system moves editor state
    Inv course.editor (H ++ course.happenings) := by
  induction moves generalizing editor H state with
  | nil => simpa [course] using h
  | cons move moves ih =>
      have hmade := hmove move editor H state h
      have hrest := ih ((backend.make move editor).run system state).state hmade
      simpa [course, List.append_assoc] using hrest

/-- Makes the moves of a list in order, each of them through a backend of its own. -/
def courseThrough (system : System I σ) : List (Backend I E × Move) → E → σ → Course I E σ
  | [], editor, state => ⟨[], editor, state⟩
  | (backend, move) :: moves, editor, state =>
    let made := (backend.make move editor).run system state
    let rest := courseThrough system moves made.value.2 made.state
    { rest with happenings := happeningsOf move made.value.1 made.entries ++ rest.happenings }

theorem course_eq_courseThrough (backend : Backend I E) (system : System I σ) (moves : List Move)
    (editor : E) (state : σ) :
    backend.course system moves editor state =
      courseThrough system (moves.map (backend, ·)) editor state := by
  induction moves generalizing editor state with
  | nil => rfl
  | cons move moves ih => simp only [course, List.map_cons, courseThrough, ih]

theorem happenings_courseThrough_concat (backend : Backend I E) (move : Move) (system : System I σ)
    (moves : List (Backend I E × Move)) (editor : E) (state : σ) :
    let first := courseThrough system moves editor state
    let made := (backend.make move first.editor).run system first.state
    (courseThrough system (moves ++ [(backend, move)]) editor state).happenings =
      first.happenings ++ happeningsOf move made.value.1 made.entries := by
  induction moves generalizing editor state with
  | nil => simp [courseThrough]
  | cons step moves ih =>
      obtain ⟨other, first⟩ := step
      simp only [List.cons_append, courseThrough, ih, List.append_assoc]

end Backend

end ThreadAffinity
