import ThreadAffinity.Event

/-!
# Dialogues with the system

Everything the library does to threads it does by asking the system. A dialogue
is such a computation as a value: it asks, goes on with the reply, notes events
on the way and ends in a result. What the system does is no part of it. A
dialogue is brought to life by a `System`, which may remember what it was asked
before; `Dialogue.run` gives the result together with the transcript, the
requests with their replies and the events, in the order in which they came.

A statement about every `System` is a statement about every behaviour of the
operating system.
-/

namespace ThreadAffinity

/-- What can be asked, and the kind of reply each question gets. -/
structure Interface where
  Request : Type
  Reply : Request → Type

/-- A computation that asks through an interface, notes events and ends in a result. -/
inductive Dialogue (I : Interface) (α : Type) where
  /-- The end, with a result. -/
  | done (value : α)
  /-- A question, and how to go on with each reply. -/
  | ask (request : I.Request) (next : I.Reply request → Dialogue I α)
  /-- An event, and how to go on. -/
  | note (event : Event) (rest : Dialogue I α)

namespace Dialogue

variable {I J : Interface} {α β γ σ : Type}

/-! ## Sequencing -/

def bind : Dialogue I α → (α → Dialogue I β) → Dialogue I β
  | .done value, k => k value
  | .ask request next, k => .ask request fun reply => (next reply).bind k
  | .note event rest, k => .note event (rest.bind k)

@[simp] theorem bind_done (d : Dialogue I α) : d.bind .done = d := by
  induction d with
  | done value => rfl
  | ask request next ih => simp only [bind, ih]
  | note event rest ih => simp only [bind, ih]

theorem bind_assoc (d : Dialogue I α) (k : α → Dialogue I β) (l : β → Dialogue I γ) :
    (d.bind k).bind l = d.bind fun a => (k a).bind l := by
  induction d with
  | done value => rfl
  | ask request next ih => simp only [bind, ih]
  | note event rest ih => simp only [bind, ih]

/-! ## Another interface

A dialogue about one interface is carried on through another when every question of
the first is itself a dialogue about the second. -/

def through (serve : (r : I.Request) → Dialogue J (I.Reply r)) : Dialogue I α → Dialogue J α
  | .done value => .done value
  | .ask request next => (serve request).bind fun reply => (next reply).through serve
  | .note event rest => .note event (rest.through serve)

end Dialogue

/-! ## Systems and transcripts -/

/-- One line of a transcript. -/
inductive Entry (I : Interface) where
  /-- A request and the reply it got. -/
  | call (request : I.Request) (reply : I.Reply request)
  /-- An event. -/
  | event (event : Event)

/-- Something that answers the questions of an interface and may remember them. -/
structure System (I : Interface) (σ : Type) where
  answer : (request : I.Request) → σ → I.Reply request × σ

/-- What came of a dialogue: its result, the state the system is left in and the
transcript. -/
structure Outcome (I : Interface) (σ α : Type) where
  value : α
  state : σ
  entries : List (Entry I)

namespace Dialogue

variable {I : Interface} {α β σ : Type}

def run (system : System I σ) : Dialogue I α → σ → Outcome I σ α
  | .done value, state => ⟨value, state, []⟩
  | .ask request next, state =>
    let (reply, after) := system.answer request state
    let rest := (next reply).run system after
    ⟨rest.value, rest.state, .call request reply :: rest.entries⟩
  | .note event rest, state =>
    let rest := rest.run system state
    ⟨rest.value, rest.state, .event event :: rest.entries⟩

@[simp] theorem run_done (system : System I σ) (value : α) (state : σ) :
    (Dialogue.done value).run system state = ⟨value, state, []⟩ := rfl

@[simp] theorem run_ask (system : System I σ) (request : I.Request)
    (next : I.Reply request → Dialogue I α) (state : σ) :
    (Dialogue.ask request next).run system state =
      let answer := system.answer request state
      let rest := (next answer.1).run system answer.2
      ⟨rest.value, rest.state, .call request answer.1 :: rest.entries⟩ := rfl

@[simp] theorem run_note (system : System I σ) (event : Event) (d : Dialogue I α) (state : σ) :
    (Dialogue.note event d).run system state =
      let rest := d.run system state
      ⟨rest.value, rest.state, .event event :: rest.entries⟩ := rfl

/-- A sequence runs its first part and then its second from where the first left
off; its transcript is the two transcripts one after the other. -/
theorem run_bind (system : System I σ) (d : Dialogue I α) (k : α → Dialogue I β) (state : σ) :
    (d.bind k).run system state =
      let first := d.run system state
      let second := (k first.value).run system first.state
      ⟨second.value, second.state, first.entries ++ second.entries⟩ := by
  induction d generalizing state with
  | done value => rfl
  | ask request next ih => simp only [bind, run_ask, ih, List.cons_append]
  | note event rest ih => simp only [bind, run_note, ih, List.cons_append]

end Dialogue

def Entry.event? {I : Interface} : Entry I → Option Event
  | .call _ _ => none
  | .event noted => some noted

/-- The log of a transcript: its events, in order. -/
def eventsOf {I : Interface} (entries : List (Entry I)) : List Event :=
  entries.filterMap Entry.event?

/-- What is written down of the requests of a transcript, in order. -/
def callsOf {I : Interface} {α : Type}
    (write : (request : I.Request) → I.Reply request → Option α) (entries : List (Entry I)) :
    List α :=
  entries.filterMap fun
    | .call request reply => write request reply
    | .event _ => none

end ThreadAffinity
