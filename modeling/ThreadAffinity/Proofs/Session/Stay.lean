import ThreadAffinity.Proofs.Session.Part

/-!
# Editors in whole sessions

A stay is a session seen from one editor: there are the steps before it is opened, the step
that opens it and the steps after that. Two stays may be in sessions over different systems,
with other editors, and under different numbers.

`Independent` says that an editor comes to the same in any two stays in which it was given
the same when it was opened, the same is done with it, and the replies to its own questions
agree. `Traceless` says that the backend itself is after any session what it is in a fresh
one. Both follow from `Backend.Respects`, once it is known what an editor is given
(`independent_of_respects`, `traceless_of_respects`).
-/

namespace ThreadAffinity

namespace Session

open Dialogue

variable {I : Interface} {E G σ τ : Type} {setup : Setup I E} {system : System I σ}
  {table : Table E} {step : Step} {id : Int}

/-! ## Records -/

theorem length_records (setup : Setup I E) (system : System I σ) (steps : List Step)
    (table : Table E) (state : σ) :
    (playAll setup system steps table state).records.length = steps.length := by
  induction steps generalizing table state with
  | nil => rfl
  | cons step steps ih => simp [playAll, ih]

/-- Behind some steps, a session goes on from the table and the state that these led to. -/
theorem drop_records (setup : Setup I E) (system : System I σ) (front back : List Step)
    (table : Table E) (state : σ) :
    let first := playAll setup system front table state
    (playAll setup system (front ++ back) table state).records.drop front.length =
      (playAll setup system back first.table first.state).records := by
  simp only [playAll_append]
  rw [← length_records setup system front table state, List.drop_left]

/-- The record of a step is what the step leaves where it stands. -/
theorem records_at (setup : Setup I E) (system : System I σ) {steps : List Step} {n : Nat}
    (hn : steps[n]? = some step) (table : Table E) (state : σ) :
    ∃ reached now, let taken := (play setup reached step).run system now
      (playAll setup system steps table state).records[n]? =
        some ⟨taken.value.1, taken.entries⟩ := by
  induction steps generalizing table state n with
  | nil => cases hn
  | cons first steps ih =>
      cases n with
      | zero =>
          obtain rfl : first = step := Option.some.inj hn
          exact ⟨table, state, rfl⟩
      | succ n => exact ih hn _ _

/-! ## Opening -/

/-- As its record has it, the step gave the number to a new editor for this thread. The
record ends with what opening the editor takes, `own`; in front of that the thread is asked
for, unless it was named. -/
def OpenedFor (asked : Thread → Entry I) (id : Int) (thread : Thread) (own : List (Entry I)) :
    Step → Record I → Prop
  | .openEditor other named, record =>
    other = id ∧ named = thread ∧ record.result = .answer (.ok .unit) ∧ own <:+ record.entries
  | .openCurrent other, record =>
    other = id ∧ record.result = .answer (.ok .unit) ∧ asked thread :: own <:+ record.entries
  | _, _ => False

/-- When a number was given to a new editor, the editor stands under it, and the transcript
ends with finding the thread and with what the backend asked for in opening the editor. -/
theorem opening_ends (id : Int) (find : Dialogue I Thread) (table : Table E) (state : σ) :
    let taken := ((openAt setup.backend id find table).bind fun (result, table) =>
      answered table (.ofUnit result)).run system state
    taken.value.1 = .answer (.ok .unit) → ∃ front before now editor,
      let found := find.run system before
      let opened := (setup.backend.openEditor found.value).run system now
      opened.value = .ok editor ∧ taken.value.2.get? id = some editor ∧
        taken.entries = front ++ (found.entries ++ opened.entries) := by
  simp only [openAt, run_bind]
  split
  · intro hworks
    cases hworks
  · rename_i editor hopened
    intro _
    let freed := (closeAt setup.backend id table).run system state
    refine ⟨freed.entries, _, _, editor, hopened, ?_, ?_⟩
    · simp [answered]
    · simp [answered, freed]

/-- What a record says about an editor that was opened holds of the editor. -/
theorem exists_of_openedFor {asked : Thread → Entry I} {thread : Thread} {own : List (Entry I)}
    (hasked : ∀ now, let found := setup.backend.currentThread.run system now
      found.entries = [asked found.value])
    (hinj : Function.Injective asked)
    (hown : ∀ thread now editor, let opened := (setup.backend.openEditor thread).run system now
      opened.value = .ok editor → opened.entries.length = own.length) (state : σ) :
    let taken := (play setup table step).run system state
    OpenedFor asked id thread own step ⟨taken.value.1, taken.entries⟩ → ∃ now editor,
      let opened := (setup.backend.openEditor thread).run system now
      taken.value.2.get? id = some editor ∧ opened.value = .ok editor ∧ opened.entries = own := by
  intro taken hopened
  cases step with
  | openEditor other named =>
      obtain ⟨rfl, rfl, hresult, front, hentries⟩ := hopened
      obtain ⟨closing, _, now, editor, hvalue, hget, htaken⟩ := opening_ends _ _ table state hresult
      -- both splits cut off as much at the end, so what they cut off is the same
      have hsplit := hentries.trans htaken
      have hlength := hown _ now editor hvalue
      obtain ⟨-, hsame⟩ := List.append_inj' hsplit hlength.symm
      exact ⟨now, editor, hget, hvalue, hsame.symm⟩
  | openCurrent other =>
      obtain ⟨rfl, hresult, front, hentries⟩ := hopened
      obtain ⟨closing, before, now, editor, hvalue, hget, htaken⟩ :=
        opening_ends _ _ table state hresult
      rw [hasked before] at htaken
      have hsplit := hentries.trans htaken
      have hlength := hown _ now editor hvalue
      obtain ⟨-, hsame⟩ := List.append_inj' hsplit (by simp [hlength])
      obtain ⟨hthread, hrest⟩ := List.cons_eq_cons.mp hsame
      obtain rfl := hinj hthread
      exact ⟨now, editor, hget, hvalue, hrest.symm⟩
  | _ => exact hopened.elim

/-- Every step that opened an editor opened it for some thread. -/
theorem openedFor_of_opens (asked : Thread → Entry I)
    (hasked : ∀ now, let found := setup.backend.currentThread.run system now
      found.entries = [asked found.value])
    (hopens : step.opens? = some id) (state : σ) :
    let taken := (play setup table step).run system state
    taken.value.1 = .answer (.ok .unit) → ∃ thread now editor,
      let opened := (setup.backend.openEditor thread).run system now
      opened.value = .ok editor ∧
        OpenedFor asked id thread opened.entries step ⟨taken.value.1, taken.entries⟩ := by
  intro taken hresult
  cases step with
  | openEditor other named =>
      obtain rfl : other = id := Option.some.inj hopens
      obtain ⟨closing, _, now, editor, hvalue, -, htaken⟩ := opening_ends _ _ table state hresult
      exact ⟨named, now, editor, hvalue, rfl, rfl, hresult, closing, htaken.symm⟩
  | openCurrent other =>
      obtain rfl : other = id := Option.some.inj hopens
      obtain ⟨closing, before, now, editor, hvalue, -, htaken⟩ :=
        opening_ends _ _ table state hresult
      rw [hasked before] at htaken
      exact ⟨_, now, editor, hvalue, rfl, hresult, closing, htaken.symm⟩
  | _ => cases hopens

/-- What records say about openings can be relied on: an editor that was given something has
it, and every editor that was opened was given something. -/
structure Tells (backend : Backend I E) (Gives : Int → G → Step → Record I → Prop)
    (Has : G → E → Prop) : Prop where
  has : ∀ {σ : Type} {system : System I σ} {standard : Backend I E} {step : Step}
    {table : Table E} {state : σ} {id : Int} {given : G},
    let taken := (play ⟨backend, standard⟩ table step).run system state
    Gives id given step ⟨taken.value.1, taken.entries⟩ →
      ∃ editor, taken.value.2.get? id = some editor ∧ Has given editor
  gives : ∀ {σ : Type} {system : System I σ} {standard : Backend I E} {step : Step}
    {table : Table E} {state : σ} {id : Int}, step.opens? = some id →
    let taken := (play ⟨backend, standard⟩ table step).run system state
    taken.value.1 = .answer (.ok .unit) →
      ∃ given, Gives id given step ⟨taken.value.1, taken.entries⟩

/-! ## Stays -/

/-- A session seen from one editor: the system and the state it starts from, the standard
backend, the number of the editor, and the steps before it is opened, to open it and after. -/
structure Stay (I : Interface) (E : Type) where
  State : Type
  system : System I State
  start : State
  standard : Backend I E
  id : Int
  before : List Step
  opening : Step
  after : List Step

namespace Stay

variable (stay : Stay I E) (backend : Backend I E)

def records : List (Record I) :=
  (run ⟨backend, stay.standard⟩ stay.system (stay.before ++ stay.opening :: stay.after)
    stay.start).records

/-- What is done about the editor from its opening on, with the records. -/
def part : List (Deed × Record I) :=
  partOf stay.id (stay.after.zip ((stay.records backend).drop (stay.before.length + 1)))

def OpenedBy (record : Record I) : Prop :=
  stay.opening.opens? = some stay.id ∧
    (stay.records backend)[stay.before.length]? = some record ∧
    record.result = .answer (.ok .unit)

/-- By the record of its opening, this is what the editor was given. -/
def Given (Gives : Int → G → Step → Record I → Prop) (given : G) : Prop :=
  ∃ record, (stay.records backend)[stay.before.length]? = some record ∧
    Gives stay.id given stay.opening record

/-- From the opening on, the session goes on from where the steps before it led. -/
theorem records_from_opening : ∃ table state,
    let setup : Setup I E := ⟨backend, stay.standard⟩
    let taken := (play setup table stay.opening).run stay.system state
    let rest := playAll setup stay.system stay.after taken.value.2 taken.state
    (stay.records backend)[stay.before.length]? = some ⟨taken.value.1, taken.entries⟩ ∧
      (stay.records backend).drop (stay.before.length + 1) = rest.records := by
  let setup : Setup I E := ⟨backend, stay.standard⟩
  let first := playAll setup stay.system stay.before .empty stay.start
  have hdrop := drop_records setup stay.system stay.before (stay.opening :: stay.after) .empty
    stay.start
  refine ⟨first.table, first.state, ?_, ?_⟩
  · rw [← List.head?_drop]
    exact congrArg List.head? hdrop
  · rw [← List.tail_drop]
    exact congrArg List.tail hdrop

variable {stay backend} {Gives : Int → G → Step → Record I → Prop} {Has : G → E → Prop} {given : G}

/-- An editor that was opened has what it was given, and its part is what it comes to alone. -/
theorem alone_of_given (htells : Tells backend Gives Has) (h : stay.Given backend Gives given) :
    ∃ editor, Alone backend stay.system (some editor) (stay.part backend) ∧ Has given editor := by
  obtain ⟨table, state, hopening, hrest⟩ := stay.records_from_opening backend
  obtain ⟨record, hrecord, hgiven⟩ := h
  obtain rfl := Option.some.inj (hopening.symm.trans hrecord)
  obtain ⟨editor, hget, hhas⟩ := htells.has hgiven
  refine ⟨editor, ?_, hhas⟩
  rw [part, hrest, ← hget]
  exact partOf_alone ⟨backend, stay.standard⟩ _ _ _ _ _

theorem exists_given (htells : Tells backend Gives Has) {record : Record I}
    (h : stay.OpenedBy backend record) : ∃ given, stay.Given backend Gives given := by
  obtain ⟨table, state, hopening, -⟩ := stay.records_from_opening backend
  obtain ⟨hopens, hrecord, hresult⟩ := h
  obtain rfl := Option.some.inj (hopening.symm.trans hrecord)
  obtain ⟨given, hgives⟩ := htells.gives hopens hresult
  exact ⟨given, _, hrecord, hgives⟩

end Stay

/-! ## What an editor depends on -/

/-- An editor comes to the same in any two stays in which it was given the same, the same is
done with it, and the replies to what is asked meanwhile agree: the results are the same, and
the transcripts are as far as the view goes. And every editor that was opened was given
something. -/
structure Independent (backend : Backend I E) (view : Exchange I → Exchange I)
    (Gives : Int → G → Step → Record I → Prop) : Prop where
  given : ∀ (stay : Stay I E) (record : Record I), stay.OpenedBy backend record →
    ∃ given, stay.Given backend Gives given
  same : ∀ (mine yours : Stay I E) (given : G), mine.Given backend Gives given →
    yours.Given backend Gives given →
    (mine.part backend).map Prod.fst = (yours.part backend).map Prod.fst →
    Agree view (repliesIn ((mine.part backend).map Prod.snd))
      (repliesIn ((yours.part backend).map Prod.snd)) →
    (mine.part backend).map (fun own => own.2.seen view) =
      (yours.part backend).map (fun own => own.2.seen view)

/-- No session leaves a trace in the backend: steps that use the backend and no open editor
come after any session to what they come to in a fresh one, if the replies to what they ask
agree. -/
def Traceless (backend : Backend I E) (view : Exchange I → Exchange I) : Prop :=
  ∀ (σ τ : Type) (here : System I σ) (there : System I τ) (s : σ) (t : τ)
    (standard other : Backend I E) (session steps : List Step), (∀ step ∈ steps, step.Plain) →
    let after := (run ⟨backend, standard⟩ here (session ++ steps) s).records.drop session.length
    let fresh := (run ⟨backend, other⟩ there steps t).records
    Agree view (repliesIn after) (repliesIn fresh) →
      after.map (Record.seen view) = fresh.map (Record.seen view)

/-- At every point of every session the backend answers with the same number of processors and
the same written form, and nothing is asked for that. -/
def Steady (backend : Backend I E) (count : Nat) : Prop :=
  ∀ (σ : Type) (system : System I σ) (state : σ) (standard : Backend I E) (steps : List Step)
    (n : Nat),
    let setup : Setup I E := ⟨backend, standard⟩
    let records := (run setup system steps state).records
    (steps[n]? = some .processorCount →
      records[n]? = some ⟨.answer (.ok (.number count)), []⟩) ∧
    (steps[n]? = some .describe →
      records[n]? = some ⟨.answer (.ok (.text setup.describe)), []⟩)

variable {backend : Backend I E} {view : Exchange I → Exchange I} {alike : E → E → Prop}

theorem independent_of_respects {Gives : Int → G → Step → Record I → Prop} {Has : G → E → Prop}
    (h : backend.Respects view alike) (htells : Tells backend Gives Has)
    (halike : ∀ given editor other, Has given editor → Has given other → alike editor other) :
    Independent backend view Gives where
  given := fun _ _ hopened => Stay.exists_given htells hopened
  same := by
    intro mine yours given hmine hyours hdeeds hagree
    obtain ⟨editor, halone, hhas⟩ := Stay.alone_of_given htells hmine
    obtain ⟨other, hother, hholds⟩ := Stay.alone_of_given htells hyours
    exact halone.tallies h hother (.some (halike given editor other hhas hholds)) hdeeds hagree

theorem steady_of_done {count : Nat} (hcount : backend.processorCount = .done count) :
    Steady backend count := by
  intro σ system state standard steps n setup records
  refine ⟨fun hn => ?_, fun hn => ?_⟩
  · obtain ⟨reached, now, hrecord⟩ := records_at setup system hn .empty state
    have hplay : play setup reached .processorCount = answered reached (.ok (.number count)) := by
      rw [play, hcount]
      rfl
    rw [hplay] at hrecord
    exact hrecord
  · obtain ⟨reached, now, hrecord⟩ := records_at setup system hn .empty state
    exact hrecord

theorem traceless_of_respects (h : backend.Respects view alike) : Traceless backend view := by
  intro σ τ here there s t standard other session steps hplain
  simp only [run, drop_records]
  exact playAll_plain_tallies h hplain

end Session

end ThreadAffinity
