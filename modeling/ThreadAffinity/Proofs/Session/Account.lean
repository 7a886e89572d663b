import Mathlib.Data.List.Forall2
import ThreadAffinity.Proofs.Account
import ThreadAffinity.Session

/-!
# Keeping account through a session

Over a backend that keeps account of its editors (`Backend.Accounts`) a session keeps
account of its table: at every point the account is of exactly the editors that are open
under some number, and when the session is over it is of none. No step works that names
anything but good processors. `play_leads` is the step, `playAll_accounts` the run and
`run_accounts` the whole session with the closing of what was left open.
`run_accounts_each` is about an account of each step for itself.

A number that is given to a new editor is freed first, and a step that works on an editor
puts it back where it was. For the account both are the same: one editor is taken off the
table and one is put on (`Table.editors_get?`, `Table.editors_put`).
-/

namespace ThreadAffinity

namespace Session

open Dialogue

variable {I : Interface} {E σ : Type}

/-! ## Tables -/

namespace Table

variable {table : Table E} {editor : E} {id : Int}

theorem filter_eq_self_of_lookup? {rows : List (Int × E)} (h : lookup? id rows = none) :
    rows.filter (·.1 ≠ id) = rows := by
  induction rows with
  | nil => rfl
  | cons row rows ih =>
      rw [lookup?] at h
      split at h
      · cases h
      · rename_i hne
        rw [List.filter_cons, if_pos (decide_eq_true hne), ih h]

theorem lookup?_of_lt {rows : List (Int × E)} (h : ∀ row ∈ rows, id < row.1) :
    lookup? id rows = none := by
  induction rows with
  | nil => rfl
  | cons row rows ih =>
      have hrow := h row List.mem_cons_self
      rw [lookup?, if_neg (Int.ne_of_gt hrow)]
      exact ih fun other hother => h other (List.mem_cons_of_mem row hother)

/-- The row of a number can be moved to the front. -/
theorem perm_of_lookup? {rows : List (Int × E)} (hrows : rows.Pairwise (·.1 < ·.1))
    (h : lookup? id rows = some editor) :
    rows.Perm ((id, editor) :: rows.filter (·.1 ≠ id)) := by
  induction rows with
  | nil => cases h
  | cons row rows ih =>
      obtain ⟨hfirst, hrest⟩ := List.pairwise_cons.mp hrows
      rw [lookup?] at h
      split at h
      · obtain rfl := Option.some.inj h
        rename_i heq
        subst heq
        have hothers := filter_eq_self_of_lookup? (lookup?_of_lt hfirst)
        rw [List.filter_cons, if_neg (by simp), hothers]
      · rename_i hne
        rw [List.filter_cons, if_pos (decide_eq_true hne)]
        exact ((ih hrest h).cons row).trans (.swap _ _ _)

theorem erase_of_get? (h : table.get? id = none) : table.erase id = table := by
  obtain ⟨rows, hrows⟩ := table
  have hsame : rows.filter (·.1 ≠ id) = rows := filter_eq_self_of_lookup? h
  simp only [erase, hsame]

theorem editors_get? (h : table.get? id = some editor) :
    table.editors.Perm (editor :: (table.erase id).editors) :=
  (perm_of_lookup? table.increasing h).map _

theorem filter_place (id : Int) (editor : E) (rows : List (Int × E)) :
    (place id editor rows).filter (·.1 ≠ id) = rows.filter (·.1 ≠ id) := by
  induction rows with
  | nil => simp [place]
  | cons row rows ih =>
      rw [place]
      split
      · simp
      · split
        · rename_i heq
          simp [heq]
        · rw [List.filter_cons, ih, List.filter_cons]

theorem editors_put (table : Table E) (id : Int) (editor : E) :
    (table.put id editor).editors.Perm (editor :: (table.erase id).editors) := by
  have hperm : (table.put id editor).editors.Perm
      (editor :: ((table.put id editor).erase id).editors) := editors_get? (by simp)
  have hrest : (table.put id editor).erase id = table.erase id := by
    simp only [erase, put, filter_place]
  rwa [hrest] at hperm

end Table

/-! ## Steps -/

/-- The step is about binding to this processor, perhaps among others. -/
def Step.Names : Step → Nat → Prop
  | .bindThread _ p, q => q = p
  | .bindCurrent p, q => q = p
  | .select _ p, q => q = p
  | .tryBind p, q => q = p
  | .bindThreadTo _ recipe, q => ∃ mask, recipe.build = .ok mask ∧ q ∈ mask.members
  | .bindCurrentTo recipe, q => ∃ mask, recipe.build = .ok mask ∧ q ∈ mask.members
  | .tryBindTo recipe, q => ∃ mask, recipe.build = .ok mask ∧ q ∈ mask.members
  | _, _ => False

/-- The step did what it is for. A best-effort step that did not says so in its answer. -/
def Result.Works : Result → Prop
  | .answer (.ok (.flag worked)) => worked = true
  | .answer (.ok _) => True
  | _ => False

/-- A step that works names none but good processors. -/
def Step.Sound (good : Nat → Prop) (step : Step) (result : Result) : Prop :=
  result.Works → ∀ p, step.Names p → good p

/-- Where a step leads: it is sound, and the account is of the editors that are open then. -/
def Taken (good : Nat → Prop) (Inv : List E → List (Entry I) → σ → Prop) (step : Step)
    (taken : Result × Table E) (H : List (Entry I)) (state : σ) : Prop :=
  step.Sound good taken.1 ∧ Inv taken.2.editors H state

variable {system : System I σ} {good : Nat → Prop} {Inv : List E → List (Entry I) → σ → Prop}
  {backend : Backend I E} {setup : Setup I E} {step : Step} {table : Table E}

theorem sound_ofUnit {result : Except Error Unit}
    (h : result = .ok () → ∀ p, step.Names p → good p) :
    step.Sound good (.answer (.ofUnit result)) := by
  intro hworks
  cases result with
  | error error => exact hworks.elim
  | ok granted => exact h rfl

/-- What is known of the mask that a recipe makes is known of all that the recipe names. -/
theorem good_of_build {recipe : Mask.Recipe} {mask : Mask} (hmask : recipe.build = .ok mask)
    (hgood : ∀ p ∈ mask.members, good p) :
    ∀ p, (∃ mask, recipe.build = .ok mask ∧ p ∈ mask.members) → good p := by
  rintro p ⟨other, hother, hp⟩
  obtain rfl := Except.ok.inj (hmask.symm.trans hother)
  exact hgood p hp

theorem closeAt_leads (h : backend.Accounts system good Inv) (id : Int) (table : Table E) :
    (closeAt backend id table).Leads system (Inv table.editors) fun freed H state =>
      freed = table.erase id ∧ Inv freed.editors H state := by
  unfold closeAt
  split
  · rename_i hid
    exact leads_done fun _ _ hInv => ⟨(Table.erase_of_get? hid).symm, hInv⟩
  · rename_i editor hid
    have hclose := (h.close editor (table.erase id).editors).of_imp fun _ _ =>
      h.perm (Table.editors_get? hid)
    exact hclose.bind fun _ => leads_done fun _ _ hInv => ⟨rfl, hInv⟩

theorem openAt_leads (h : backend.Accounts system good Inv) (id : Int) {find : Dialogue I Thread}
    (hfind : ∀ editors, find.Leads system (Inv editors) fun _ => Inv editors) (table : Table E) :
    (openAt backend id find table).Leads system (Inv table.editors) fun opened =>
      Inv opened.2.editors := by
  refine (closeAt_leads h id table).bind fun freed => leads_of_and fun hfreed => ?_
  refine (hfind freed.editors).bind fun thread => (h.openEditor thread freed.editors).bind ?_
  rintro (error | editor)
  · exact leads_done fun _ _ hInv => hInv
  -- the number is free by now, so no editor makes room for the new one
  · have hput := Table.editors_put freed id editor
    rw [Table.erase_of_get? (by simp [hfreed])] at hput
    exact leads_done fun _ _ hInv => h.perm hput.symm hInv

theorem workAt_leads (h : backend.Accounts system good Inv) (id : Int)
    {work : E → Dialogue I (Except Error Unit × E)}
    (hwork : ∀ editor editors, (work editor).Leads system (Inv (editor :: editors))
      fun worked H state => (worked.1 = .ok () → ∀ p, step.Names p → good p) ∧
        Inv (worked.2 :: editors) H state) (table : Table E) :
    (workAt id work table).Leads system (Inv table.editors) (Taken good Inv step) := by
  unfold workAt
  split
  · exact leads_done fun _ _ hInv => ⟨fun hworks => hworks.elim, hInv⟩
  · rename_i editor hid
    have hworked := (hwork editor (table.erase id).editors).of_imp fun _ _ =>
      h.perm (Table.editors_get? hid)
    refine hworked.bind ?_
    rintro ⟨result, kept⟩
    exact leads_done fun _ _ hkept =>
      ⟨sound_ofUnit hkept.1, h.perm (Table.editors_put table id kept).symm hkept.2⟩

/-- What leaves the table alone is answered when it is done. -/
theorem answered_leads {α : Type} {d : Dialogue I α} {answer : α → Answer} {fact : α → Prop}
    (hd : d.Leads system (Inv table.editors) fun a H state => fact a ∧ Inv table.editors H state)
    (hsound : ∀ a, fact a → step.Sound good (.answer (answer a))) :
    (d.bind fun a => answered table (answer a)).Leads system (Inv table.editors)
      (Taken good Inv step) :=
  hd.bind fun a => leads_done fun _ _ h => ⟨hsound a h.1, h.2⟩

/-- A step that names no processor is sound whatever it comes to. -/
theorem silent_leads {α : Type} {d : Dialogue I α} {answer : α → Answer} {tableOf : α → Table E}
    (hd : d.Leads system (Inv table.editors) fun a => Inv (tableOf a).editors)
    (hsilent : ∀ p, ¬ step.Names p) :
    (d.bind fun a => answered (tableOf a) (answer a)).Leads system (Inv table.editors)
      (Taken good Inv step) :=
  hd.bind fun _ => leads_done fun _ _ h => ⟨fun _ p hp => absurd hp (hsilent p), h⟩

theorem withMask_leads {recipe : Mask.Recipe} {go : Mask → Dialogue I (Result × Table E)}
    (hgo : ∀ mask, recipe.build = .ok mask →
      (go mask).Leads system (Inv table.editors) (Taken good Inv step)) :
    (withMask recipe table go).Leads system (Inv table.editors) (Taken good Inv step) := by
  unfold withMask
  split
  · exact leads_done fun _ _ hInv => ⟨fun hworks => hworks.elim, hInv⟩
  · exact hgo _ (by assumption)

/-- One step of a session. -/
theorem play_leads (h : setup.backend.Accounts system good Inv)
    (hstandard : setup.standard.Accounts system good Inv) (table : Table E) (step : Step) :
    (play setup table step).Leads system (Inv table.editors) (Taken good Inv step) := by
  cases step with
  | processorCount => exact silent_leads (h.processorCount _) fun _ hp => hp
  | currentThread => exact silent_leads (h.currentThread _) fun _ hp => hp
  | describe => exact leads_done fun _ _ hInv => ⟨fun _ _ hp => hp.elim, hInv⟩
  | bindThread thread p =>
      refine answered_leads (h.bindThread thread p _) fun result hgood => sound_ofUnit ?_
      rintro hok q rfl
      exact hgood hok
  | bindThreadTo thread recipe =>
      refine withMask_leads fun mask hmask => answered_leads (h.bindThreadTo thread mask _) ?_
      exact fun result hgood => sound_ofUnit fun hok => good_of_build hmask (hgood hok)
  | bindCurrent p =>
      refine answered_leads (h.bindCurrent p _) fun result hgood => sound_ofUnit ?_
      rintro hok q rfl
      exact hgood hok
  | bindCurrentTo recipe =>
      refine withMask_leads fun mask hmask => answered_leads (h.bindCurrentTo mask _) ?_
      exact fun result hgood => sound_ofUnit fun hok => good_of_build hmask (hgood hok)
  | openEditor id thread =>
      have hfind : ∀ editors, (done thread : Dialogue I Thread).Leads system (Inv editors)
          fun _ => Inv editors := fun _ => leads_done fun _ _ hInv => hInv
      exact silent_leads (openAt_leads h id hfind table) fun _ hp => hp
  | openCurrent id => exact silent_leads (openAt_leads h id h.currentThread table) fun _ hp => hp
  | select id p =>
      refine workAt_leads h id (fun editor editors => ?_) table
      refine (h.select p editor editors).imp fun selected H state hselected => ⟨?_, hselected.2⟩
      rintro hok q rfl
      exact hselected.1 hok
  | apply id =>
      refine workAt_leads h id (fun editor editors => ?_) table
      exact (h.apply editor editors).imp fun _ _ _ hInv => ⟨fun _ _ hp => hp.elim, hInv⟩
  | describeEditor id =>
      rw [play]
      split
      · exact leads_done fun _ _ hInv => ⟨fun _ _ hp => hp.elim, hInv⟩
      · exact leads_done fun _ _ hInv => ⟨fun _ _ hp => hp.elim, hInv⟩
  | close id =>
      have hclosed := (closeAt_leads h id table).imp fun _ _ _ hfreed => hfreed.2
      exact silent_leads hclosed fun _ hp => hp
  | tryBind p =>
      refine answered_leads (hstandard.tryBind p _) fun worked hgood hworks => ?_
      rintro q rfl
      exact hgood hworks
  | tryBindTo recipe =>
      refine withMask_leads fun mask hmask => answered_leads (hstandard.tryBindTo mask _) ?_
      exact fun worked hgood hworks => good_of_build hmask (hgood hworks)

theorem closeAll_leads (h : backend.Accounts system good Inv) (editors : List E) :
    (closeAll backend editors).Leads system (Inv editors) fun _ => Inv [] := by
  induction editors with
  | nil => exact leads_done fun _ _ hInv => hInv
  | cons editor editors ih => exact (h.close editor editors).bind fun _ => ih

/-! ## Runs -/

def Progress.entries (progress : Progress I E σ) : List (Entry I) :=
  progress.records.flatMap (·.entries)

/-- All that is written down of a session, step by step and then the closing. -/
def History.entries (history : History I) : List (Entry I) :=
  history.records.flatMap (·.entries) ++ history.closing

theorem playAll_accounts (setup : Setup I E) (h : setup.backend.Accounts system good Inv)
    (hstandard : setup.standard.Accounts system good Inv) (steps : List Step) (table : Table E)
    {H : List (Entry I)} {state : σ} (hstart : Inv table.editors H state) :
    let progress := playAll setup system steps table state
    List.Forall₂ (fun step record => Step.Sound good step record.result) steps progress.records ∧
      Inv progress.table.editors (H ++ progress.entries) progress.state := by
  induction steps generalizing table H state with
  | nil => exact ⟨.nil, by simpa [playAll, Progress.entries] using hstart⟩
  | cons step steps ih =>
      obtain ⟨hsound, hkept⟩ := play_leads h hstandard table step H state hstart
      obtain ⟨hsounds, hend⟩ := ih _ hkept
      exact ⟨.cons hsound hsounds, by simpa [playAll, Progress.entries] using hend⟩

theorem run_accounts (setup : Setup I E) (h : setup.backend.Accounts system good Inv)
    (hstandard : setup.standard.Accounts system good Inv) (steps : List Step) (state : σ)
    (hstart : Inv [] [] state) :
    let history := run setup system steps state
    List.Forall₂ (fun step record => Step.Sound good step record.result) steps history.records ∧
      ∃ after, Inv [] history.entries after := by
  obtain ⟨hsounds, hplayed⟩ := playAll_accounts setup h hstandard steps .empty hstart
  exact ⟨hsounds, _, closeAll_leads h _ _ _ hplayed⟩

/-! ## Records

An account that may be begun anew at any point is kept by every step for itself, so that it is
right about each record. -/

theorem playAll_accounts_each (setup : Setup I E) (h : setup.backend.Accounts system good Inv)
    (hstandard : setup.standard.Accounts system good Inv)
    (hanew : ∀ {editors H state}, Inv editors H state → Inv editors [] state) (steps : List Step)
    (table : Table E) {state : σ} (hstart : Inv table.editors [] state) :
    let progress := playAll setup system steps table state
    (∀ record ∈ progress.records, ∃ editors after, Inv editors record.entries after) ∧
      Inv progress.table.editors [] progress.state := by
  induction steps generalizing table state with
  | nil => exact ⟨fun _ hrecord => absurd hrecord List.not_mem_nil, hstart⟩
  | cons step steps ih =>
      obtain ⟨-, htaken⟩ := play_leads h hstandard table step [] state hstart
      obtain ⟨hrest, hend⟩ := ih _ (hanew htaken)
      refine ⟨fun record hrecord => ?_, hend⟩
      rcases List.mem_cons.mp hrecord with rfl | hrecord
      · exact ⟨_, _, htaken⟩
      · exact hrest record hrecord

theorem run_accounts_each (setup : Setup I E) (h : setup.backend.Accounts system good Inv)
    (hstandard : setup.standard.Accounts system good Inv)
    (hanew : ∀ {editors H state}, Inv editors H state → Inv editors [] state) (steps : List Step)
    (state : σ) (hstart : Inv [] [] state) :
    let history := run setup system steps state
    (∀ record ∈ history.records, ∃ editors after, Inv editors record.entries after) ∧
      ∃ after, Inv [] history.closing after := by
  obtain ⟨hrecords, hend⟩ := playAll_accounts_each setup h hstandard hanew steps .empty hstart
  exact ⟨hrecords, _, closeAll_leads h _ _ _ hend⟩

end Session

end ThreadAffinity
