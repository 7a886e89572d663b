import ThreadAffinity.Proofs.Tally
import ThreadAffinity.Session

/-!
# The part of one editor in a session

Several editors can be open in a session, and steps that work on one stand between steps
that work on another or on none. The part of an editor (`partOf`) is what is left when only
the steps about its number are kept, from where one stands up to where the number is given
to another editor.

`Alone` says of such a part that it is what the editor would have come to by itself, with a
system that may change in any way between two deeds. `partOf_alone` is that every part of
every session is of this kind: a step about the editor does just what the deed does
(`play_deed`), and any other step leaves the editor as it was (`play_others`). From there on
sessions play no role any more: two editors that are alike, with the same deeds and replies
that agree, come to the same (`Alone.tallies`).

The last section is about the steps that use the backend and no open editor. These leave no
trace in the table and depend on none (`playAll_plain_tallies`).
-/

namespace ThreadAffinity

namespace Session

open Dialogue

variable {I : Interface} {E σ τ : Type}

/-! ## Deeds -/

/-- What is done about the editor of a number. -/
inductive Deed where
  | select (processor : Nat)
  | apply
  | describe
  | close
deriving Repr, DecidableEq

def Step.deed? (id : Int) : Step → Option Deed
  | .select other p => if other = id then some (.select p) else none
  | .apply other => if other = id then some .apply else none
  | .describeEditor other => if other = id then some .describe else none
  | .close other => if other = id then some .close else none
  | _ => none

def Step.opens? : Step → Option Int
  | .openEditor id _ => some id
  | .openCurrent id => some id
  | _ => none

def workOn (work : E → Dialogue I (Except Error Unit × E)) :
    Option E → Dialogue I (Result × Option E)
  | none => .done (.noEditor, none)
  | some editor =>
    (work editor).bind fun (result, kept) => .done (.answer (.ofUnit result), some kept)

def perform (backend : Backend I E) : Deed → Option E → Dialogue I (Result × Option E)
  | .select p, editor? => workOn (backend.select p) editor?
  | .apply, editor? => workOn backend.apply editor?
  | .describe, none => .done (.noEditor, none)
  | .describe, some editor =>
    .done (.answer (.ok (.text (backend.describeEditor editor))), some editor)
  | .close, none => .done (.answer (.ok (.flag false)), none)
  | .close, some editor =>
    (backend.close editor).bind fun _ => .done (.answer (.ok (.flag true)), none)

variable {setup : Setup I E} {system : System I σ} {table : Table E} {step : Step} {deed : Deed}
  {id : Int}

theorem workAt_run (id : Int) (work : E → Dialogue I (Except Error Unit × E)) (table : Table E)
    (system : System I σ) (state : σ) :
    let taken := (workAt id work table).run system state
    let done := (workOn work (table.get? id)).run system state
    taken.value.1 = done.value.1 ∧ taken.value.2.get? id = done.value.2 ∧
      taken.state = done.state ∧ taken.entries = done.entries := by
  cases hid : table.get? id with
  | none => simp [workAt, workOn, hid]
  | some editor => simp [workAt, workOn, hid, run_bind]

/-- A step about the editor of a number comes to what the deed comes to. -/
theorem play_deed (setup : Setup I E) (system : System I σ) (table : Table E)
    (hdeed : step.deed? id = some deed) (state : σ) :
    let taken := (play setup table step).run system state
    let done := (perform setup.backend deed (table.get? id)).run system state
    taken.value.1 = done.value.1 ∧ taken.value.2.get? id = done.value.2 ∧
      taken.state = done.state ∧ taken.entries = done.entries := by
  cases step with
  | select other p =>
      obtain ⟨rfl, rfl⟩ : other = id ∧ .select p = deed := by simpa [Step.deed?] using hdeed
      exact workAt_run other (setup.backend.select p) table system state
  | apply other =>
      obtain ⟨rfl, rfl⟩ : other = id ∧ .apply = deed := by simpa [Step.deed?] using hdeed
      exact workAt_run other setup.backend.apply table system state
  | describeEditor other =>
      obtain ⟨rfl, rfl⟩ : other = id ∧ .describe = deed := by simpa [Step.deed?] using hdeed
      cases hid : table.get? other with
      | none => simp [play, hid, perform]
      | some editor => simp [play, hid, perform, answered]
  | close other =>
      obtain ⟨rfl, rfl⟩ : other = id ∧ .close = deed := by simpa [Step.deed?] using hdeed
      cases hid : table.get? other with
      | none => simp [play, closeAt, Dialogue.bind, hid, perform, answered]
      | some editor => simp [play, closeAt, hid, perform, answered, run_bind]
  | _ => cases hdeed

/-! ## Other steps -/

theorem closeAt_others {other : Int} (hother : other ≠ id) (state : σ) :
    ((closeAt setup.backend other table).run system state).value.get? id = table.get? id := by
  unfold closeAt
  split
  · rfl
  · simp [run_bind, hother]

theorem openAt_others {other : Int} (hother : other ≠ id) (find : Dialogue I Thread) (state : σ) :
    ((openAt setup.backend other find table).run system state).value.2.get? id = table.get? id := by
  simp only [openAt, run_bind]
  split
  · exact closeAt_others hother state
  · simp [hother, closeAt_others hother state]

theorem workAt_others {other : Int} (hother : other ≠ id)
    (work : E → Dialogue I (Except Error Unit × E)) (state : σ) :
    ((workAt other work table).run system state).value.2.get? id = table.get? id := by
  unfold workAt
  split
  · rfl
  · simp [run_bind, hother]

/-- What leaves the table alone leaves every editor alone. -/
theorem answered_others {α : Type} (d : Dialogue I α) (answer : α → Answer) (state : σ) :
    ((d.bind fun a => answered table (answer a)).run system state).value.2 = table := by
  rw [run_bind]
  rfl

theorem withMask_others {recipe : Mask.Recipe} {go : Mask → Dialogue I (Result × Table E)}
    {state : σ} (hgo : ∀ mask, ((go mask).run system state).value.2 = table) :
    ((withMask recipe table go).run system state).value.2 = table := by
  unfold withMask
  split
  · rfl
  · exact hgo _

/-- A step that is not about the editor of a number, and does not give the number to another
one, leaves the editor as it was. -/
theorem play_others (hdeed : step.deed? id = none) (hopens : step.opens? ≠ some id) (state : σ) :
    ((play setup table step).run system state).value.2.get? id = table.get? id := by
  have hsame {taken : Result × Table E} (h : taken.2 = table) : taken.2.get? id = table.get? id :=
    congrArg (Table.get? · id) h
  cases step with
  | processorCount => exact hsame (answered_others _ _ state)
  | currentThread => exact hsame (answered_others _ _ state)
  | describe => rfl
  | bindThread thread p => exact hsame (answered_others _ _ state)
  | bindThreadTo thread recipe => exact hsame (withMask_others fun _ => answered_others _ _ state)
  | bindCurrent p => exact hsame (answered_others _ _ state)
  | bindCurrentTo recipe => exact hsame (withMask_others fun _ => answered_others _ _ state)
  | openEditor other thread =>
      have hother : other ≠ id := fun heq => hopens (congrArg some heq)
      rw [play, run_bind]
      exact openAt_others hother _ state
  | openCurrent other =>
      have hother : other ≠ id := fun heq => hopens (congrArg some heq)
      rw [play, run_bind]
      exact openAt_others hother _ state
  | select other p =>
      have hother : other ≠ id := by simpa [Step.deed?] using hdeed
      exact workAt_others hother _ state
  | apply other =>
      have hother : other ≠ id := by simpa [Step.deed?] using hdeed
      exact workAt_others hother _ state
  | describeEditor other =>
      rw [play]
      split
      · rfl
      · rfl
  | close other =>
      have hother : other ≠ id := by simpa [Step.deed?] using hdeed
      rw [play, run_bind]
      exact closeAt_others hother state
  | tryBind p => exact hsame (answered_others _ _ state)
  | tryBindTo recipe => exact hsame (withMask_others fun _ => answered_others _ _ state)

/-! ## Parts -/

/-- What is done about the editor of a number, with the record that each step leaves, until
the number is given to another editor. -/
def partOf (id : Int) : List (Step × Record I) → List (Deed × Record I)
  | [] => []
  | (step, record) :: rest =>
    match step.deed? id with
    | some deed => (deed, record) :: partOf id rest
    | none => if step.opens? = some id then [] else partOf id rest

/-- These are the deeds and records of an editor, done one after the other and with nothing
else in between that would concern the editor. In what state a deed finds the system is left
open. -/
def Alone (backend : Backend I E) (system : System I σ) :
    Option E → List (Deed × Record I) → Prop
  | _, [] => True
  | editor?, (deed, record) :: rest =>
    ∃ now, let done := (perform backend deed editor?).run system now
      record = ⟨done.value.1, done.entries⟩ ∧ Alone backend system done.value.2 rest

/-- Whatever else happens in a session: the part of an editor is what it comes to alone. -/
theorem partOf_alone (setup : Setup I E) (system : System I σ) (id : Int) (steps : List Step)
    (table : Table E) (state : σ) :
    Alone setup.backend system (table.get? id)
      (partOf id (steps.zip (playAll setup system steps table state).records)) := by
  induction steps generalizing table state with
  | nil => exact trivial
  | cons step steps ih =>
      have hrest := ih ((play setup table step).run system state).value.2
        ((play setup table step).run system state).state
      simp only [playAll, List.zip_cons_cons, partOf]
      -- a step about the editor is its next deed; any other one leaves it where it is
      cases hdeed : step.deed? id with
      | some deed =>
          obtain ⟨hresult, hkept, -, hentries⟩ := play_deed setup system table hdeed state
          rw [hkept] at hrest
          exact ⟨state, by rw [hresult, hentries], hrest⟩
      | none =>
          simp only
          split
          · exact trivial
          · rename_i hopens
            rwa [play_others hdeed hopens state] at hrest

/-! ## Two parts -/

def Record.seen (view : Exchange I → Exchange I) (record : Record I) : Record I :=
  ⟨record.result, record.entries.map (Entry.seen view)⟩

theorem Record.seen_congr {view : Exchange I → Exchange I} {result other : Result}
    {entries others : List (Entry I)} (hresult : result = other)
    (hentries : entries.map (Entry.seen view) = others.map (Entry.seen view)) :
    Record.seen view ⟨result, entries⟩ = Record.seen view ⟨other, others⟩ := by
  rw [Record.seen, Record.seen, hresult, hentries]

/-- What was asked in a list of records, with the replies. -/
def repliesIn (records : List (Record I)) : List (Exchange I) :=
  exchangesOf (records.flatMap (·.entries))

variable {backend : Backend I E} {view : Exchange I → Exchange I} {alike : E → E → Prop}

/-- What deeds come to: the same result, and editors that are alike, or none. -/
def DoneAlike (alike : E → E → Prop) (done others : Result × Option E) : Prop :=
  done.1 = others.1 ∧ Option.Rel alike done.2 others.2

theorem workOn_tallies {work : E → Dialogue I (Except Error Unit × E)}
    (hwork : ∀ editor other, alike editor other →
      (work editor).Tallies view (work other) (Backend.WorkedAlike alike))
    {editor? other? : Option E} (halike : Option.Rel alike editor? other?) :
    (workOn work editor?).Tallies view (workOn work other?) (DoneAlike alike) := by
  cases halike with
  | none => exact tallies_done ⟨rfl, .none⟩
  | some halike =>
      refine (hwork _ _ halike).bind ?_
      rintro ⟨result, kept⟩ ⟨_, held⟩ ⟨rfl, hkept⟩
      exact tallies_done ⟨rfl, .some hkept⟩

theorem perform_tallies (h : backend.Respects view alike) (deed : Deed) {editor? other? : Option E}
    (halike : Option.Rel alike editor? other?) :
    (perform backend deed editor?).Tallies view (perform backend deed other?)
      (DoneAlike alike) := by
  cases deed with
  | select p => exact workOn_tallies (h.select p) halike
  | apply => exact workOn_tallies h.apply halike
  | describe =>
      cases halike with
      | none => exact tallies_done ⟨rfl, .none⟩
      | some halike =>
          refine tallies_done ⟨?_, .some halike⟩
          rw [h.describeEditor _ _ halike]
  | close =>
      cases halike with
      | none => exact tallies_done ⟨rfl, .none⟩
      | some halike => exact (h.close _ _ halike).bind fun _ _ _ => tallies_done ⟨rfl, .none⟩

/-- Editors that are alike come to the same with the same deeds, as long as the replies to
what they ask agree. -/
theorem Alone.tallies (h : backend.Respects view alike) {here : System I σ} {there : System I τ}
    {mine yours : List (Deed × Record I)} {editor? other? : Option E}
    (hmine : Alone backend here editor? mine) (hyours : Alone backend there other? yours)
    (halike : Option.Rel alike editor? other?)
    (hdeeds : mine.map Prod.fst = yours.map Prod.fst)
    (hagree : Agree view (repliesIn (mine.map Prod.snd)) (repliesIn (yours.map Prod.snd))) :
    mine.map (fun own => own.2.seen view) = yours.map (fun own => own.2.seen view) := by
  induction mine generalizing yours editor? other? with
  | nil => rw [List.map_eq_nil_iff.mp hdeeds.symm]
  | cons own mine ih =>
      obtain ⟨⟨deed, record⟩, yours, rfl, hdeed, hrest⟩ := List.map_eq_cons_iff.mp hdeeds.symm
      obtain ⟨own, first⟩ := own
      obtain rfl : deed = own := hdeed
      obtain ⟨now, rfl, hmine⟩ := hmine
      obtain ⟨later, rfl, hyours⟩ := hyours
      -- the first replies agree, so the editors are still alike where the rest begins
      obtain ⟨hentries, ⟨hresult, hkept⟩, hagree⟩ := (perform_tallies h deed halike).front hagree
      have hothers := ih hmine hyours hkept hrest.symm hagree
      exact List.cons_eq_cons.mpr ⟨Record.seen_congr hresult hentries, hothers⟩

/-! ## Steps without an editor -/

/-- The step uses the backend and no open editor. -/
def Step.Plain : Step → Prop
  | .processorCount | .currentThread | .describe | .bindThread _ _ | .bindThreadTo _ _
  | .bindCurrent _ | .bindCurrentTo _ => True
  | _ => False

variable {standard other : Backend I E} {mine yours : Table E}

theorem answered_tallies {α : Type} {d : Dialogue I α} (answer : α → Answer)
    (hd : d.Tallies view d Eq) :
    (d.bind fun a => answered mine (answer a)).Tallies view
      (d.bind fun a => answered yours (answer a)) fun a b => a.1 = b.1 := by
  refine hd.bind ?_
  rintro a _ rfl
  exact tallies_done rfl

theorem withMask_tallies {recipe : Mask.Recipe} {go work : Mask → Dialogue I (Result × Table E)}
    (hgo : ∀ mask, (go mask).Tallies view (work mask) fun a b => a.1 = b.1) :
    (withMask recipe mine go).Tallies view (withMask recipe yours work) fun a b => a.1 = b.1 := by
  unfold withMask
  split
  · exact tallies_done rfl
  · exact hgo _

theorem play_plain_tallies (h : backend.Respects view alike) (hplain : step.Plain) :
    (play ⟨backend, standard⟩ mine step).Tallies view (play ⟨backend, other⟩ yours step)
      fun a b => a.1 = b.1 := by
  cases step with
  | processorCount => exact answered_tallies _ h.processorCount
  | currentThread => exact answered_tallies _ h.currentThread
  | describe => exact tallies_done rfl
  | bindThread thread p => exact answered_tallies _ (h.bindThread thread p)
  | bindThreadTo thread recipe =>
      exact withMask_tallies fun mask => answered_tallies _ (h.bindThreadTo thread mask)
  | bindCurrent p => exact answered_tallies _ (h.bindCurrent p)
  | bindCurrentTo recipe =>
      exact withMask_tallies fun mask => answered_tallies _ (h.bindCurrentTo mask)
  | _ => exact hplain.elim

/-- Steps without an editor come to the same whatever editors are open, as long as the replies
to what they ask agree. -/
theorem playAll_plain_tallies (h : backend.Respects view alike) {here : System I σ}
    {there : System I τ} {steps : List Step} (hplain : ∀ step ∈ steps, step.Plain) {s : σ} {t : τ}
    (hagree : Agree view
      (repliesIn (playAll ⟨backend, standard⟩ here steps mine s).records)
      (repliesIn (playAll ⟨backend, other⟩ there steps yours t).records)) :
    (playAll ⟨backend, standard⟩ here steps mine s).records.map (Record.seen view) =
      (playAll ⟨backend, other⟩ there steps yours t).records.map (Record.seen view) := by
  induction steps generalizing mine yours s t with
  | nil => rfl
  | cons step steps ih =>
      obtain ⟨hstep, hsteps⟩ := List.forall_mem_cons.mp hplain
      obtain ⟨hentries, hresult, hagree⟩ := (play_plain_tallies h hstep).front hagree
      have hrest := ih hsteps hagree
      exact List.cons_eq_cons.mpr ⟨Record.seen_congr hresult hentries, hrest⟩

end Session

end ThreadAffinity
