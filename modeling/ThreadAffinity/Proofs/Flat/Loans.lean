import ThreadAffinity.Flat.Backend
import ThreadAffinity.Flat.Script
import ThreadAffinity.Proofs.Course
import ThreadAffinity.Proofs.Session.Account

/-!
# Every set that is lent is given back

A flat system lends out sets, and what it gets back is up to the editors. Over a system
that gives each set a ticket of its own, the sets that are on loan are at every point
exactly those of the open editors, and none is left when the session is over. All that is
asked about a set in between is proper: it is on loan, it is handed over as the system
left it last, and it was cleared before it is used.

`Books` is the account of the sets on loan, with one lemma for each kind of entry. An
editor's set was cleared in addition, which is what `Ledger` adds; in between, while an
editor is being opened, a fresh set is on no editor's account yet.
-/

namespace ThreadAffinity

namespace Flat

open Dialogue Session

variable {σ : Type} {system : System interface σ} {issued : σ → Nat → Prop}

/-! ## Transcripts -/

def lentIn : Entry interface → Option Nat
  | .call (.allocate _) (some loan) => some loan.ticket
  | _ => none

def returnedIn : Entry interface → Option Nat
  | .call (.release loan) _ => some loan.ticket
  | _ => none

/-- The set that is lent out or changed in an entry, as it is from then on. -/
def leftIn : Entry interface → Option Loan
  | .call (.allocate _) loan? => loan?
  | .call (.clear loan) set => some ⟨loan.ticket, set⟩
  | .call (.select _ loan) set => some ⟨loan.ticket, set⟩
  | _ => none

def lent (entries : List (Entry interface)) : List Nat := entries.filterMap lentIn

def returned (entries : List (Entry interface)) : List Nat := entries.filterMap returnedIn

/-- The set with a ticket, as the system left it last. -/
def latest (entries : List (Entry interface)) (ticket : Nat) : Option Loan :=
  ((entries.filterMap leftIn).filter (·.ticket = ticket)).getLast?

def Cleared (entries : List (Entry interface)) (ticket : Nat) : Prop :=
  ∃ loan set, .call (.clear loan) set ∈ entries ∧ loan.ticket = ticket

variable {H : List (Entry interface)} {x : Entry interface} {loan other : Loan} {ticket : Nat}

theorem lent_concat : lent (H ++ [x]) = lent H ++ (lentIn x).toList := by
  rw [lent, List.filterMap_append]
  cases h : lentIn x <;> simp [lent, h]

theorem returned_concat : returned (H ++ [x]) = returned H ++ (returnedIn x).toList := by
  rw [returned, List.filterMap_append]
  cases h : returnedIn x <;> simp [returned, h]

theorem latest_concat_of_eq (h : leftIn x = some loan) :
    latest (H ++ [x]) loan.ticket = some loan := by
  simp [latest, h]

theorem latest_concat_of_ne (h : ∀ loan, leftIn x = some loan → loan.ticket ≠ ticket) :
    latest (H ++ [x]) ticket = latest H ticket := by
  cases hleft : leftIn x with
  | none => simp [latest, hleft]
  | some loan => simp [latest, hleft, h loan hleft]

theorem Cleared.append (h : Cleared H ticket) (more : List (Entry interface)) :
    Cleared (H ++ more) ticket := by
  obtain ⟨loan, set, hmem, hticket⟩ := h
  exact ⟨loan, set, List.mem_append_left more hmem, hticket⟩

/-! ## What is proper -/

/-- Each set gets a ticket of its own when it is lent out: one that was not issued before
and will not be issued again. -/
structure Numbered (system : System interface σ) (issued : σ → Nat → Prop) : Prop where
  fresh : ∀ capacity state loan, (system.answer (.allocate capacity) state).1 = some loan →
    ¬ issued state loan.ticket ∧ issued (system.answer (.allocate capacity) state).2 loan.ticket
  lasting : ∀ request state ticket, issued state ticket →
    issued (system.answer request state).2 ticket

/-- Clearing and selecting leave a set as large as it is. -/
def KeepsCapacity (system : System interface σ) : Prop :=
  (∀ loan state, NativeSet.capacity (system.answer (.clear loan) state).1 = loan.set.capacity) ∧
    ∀ p loan state,
      NativeSet.capacity (system.answer (.select p loan) state).1 = loan.set.capacity

theorem Script.allocate_ends (script : Script) (capacity : Nat) :
    let allocated := script.allocate capacity
    (allocated.1 = none ∧ allocated.2.lent = script.lent) ∨
      ∃ set, allocated.1 = some ⟨script.lent, set⟩ ∧ allocated.2.lent = script.lent + 1 := by
  unfold Script.allocate
  split
  · exact Or.inr ⟨_, rfl, rfl⟩
  · split
    · exact Or.inl ⟨rfl, rfl⟩
    · exact Or.inr ⟨_, rfl, rfl⟩

theorem Script.lent_judge (script : Script) : script.judge.2.lent = script.lent := by
  unfold Script.judge
  split
  · rfl
  · rfl

/-- A script numbers the sets in the order in which they are lent. -/
theorem numbered_scripted : Numbered scripted fun script ticket => ticket < script.lent where
  fresh := by
    intro capacity script loan hloan
    obtain ⟨hnone, -⟩ | ⟨set, hset, hlent⟩ := script.allocate_ends capacity
    · exact nomatch hnone.symm.trans hloan
    · obtain rfl := Option.some.inj (hset.symm.trans hloan)
      refine ⟨Nat.lt_irrefl _, ?_⟩
      change script.lent < (script.allocate capacity).2.lent
      omega
  lasting := by
    intro request script ticket hticket
    cases request with
    | allocate capacity =>
        change ticket < (script.allocate capacity).2.lent
        obtain ⟨-, hlent⟩ | ⟨set, -, hlent⟩ := script.allocate_ends capacity <;> omega
    | bind thread loan size =>
        change ticket < script.judge.2.lent
        rwa [Script.lent_judge]
    | processorCount => exact hticket
    | release loan => exact hticket
    | measure loan => exact hticket
    | clear loan => exact hticket
    | select p loan => exact hticket
    | currentThread => exact hticket

theorem keepsCapacity_scripted : KeepsCapacity scripted :=
  ⟨fun loan _ => loan.set.capacity_clear, fun p loan _ => loan.set.capacity_insert p⟩

/-- The set is on loan, and it is just as the system left it last. -/
structure Held (system : System interface σ) (before : List (Entry interface)) (loan : Loan) :
    Prop where
  lent : loan.ticket ∈ lent before
  kept : loan.ticket ∉ returned before
  latest : latest before loan.ticket = some loan
  capacity_eq : KeepsCapacity system → ∃ asked first,
    .call (.allocate asked) (some first) ∈ before ∧ first.ticket = loan.ticket ∧
      loan.set.capacity = first.set.capacity

/-- The system is asked only about sets that are on loan, and it is asked to use none that
was not cleared. -/
def Proper (system : System interface σ) (before : List (Entry interface)) :
    Entry interface → Prop
  | .call (.clear loan) _ => Held system before loan
  | .call (.release loan) _ => Held system before loan
  | .call (.select _ loan) _ => Held system before loan ∧ Cleared before loan.ticket
  | .call (.measure loan) _ => Held system before loan ∧ Cleared before loan.ticket
  | .call (.bind _ loan _) _ => Held system before loan ∧ Cleared before loan.ticket
  | _ => True

/-- What is done about another set makes no difference to a set on loan. -/
theorem Held.extend (h : Held system H loan) (hreturned : returnedIn x ≠ some loan.ticket)
    (hleft : ∀ other, leftIn x = some other → other.ticket ≠ loan.ticket) :
    Held system (H ++ [x]) loan where
  lent := by
    rw [lent_concat]
    exact List.mem_append_left _ h.lent
  kept := by
    rw [returned_concat, List.mem_append, Option.mem_toList]
    exact not_or.mpr ⟨h.kept, hreturned⟩
  latest := by
    rw [latest_concat_of_ne hleft]
    exact h.latest
  capacity_eq := fun hkeeps => by
    obtain ⟨asked, first, hmem, hfirst⟩ := h.capacity_eq hkeeps
    exact ⟨asked, first, List.mem_append_left _ hmem, hfirst⟩

/-- A set on loan that is changed is on loan as it was left. -/
theorem Held.change (h : Held system H loan) {set : NativeSet} (hreturned : returnedIn x = none)
    (hleft : leftIn x = some ⟨loan.ticket, set⟩)
    (hcapacity : KeepsCapacity system → set.capacity = loan.set.capacity) :
    Held system (H ++ [x]) ⟨loan.ticket, set⟩ where
  lent := by
    rw [lent_concat]
    exact List.mem_append_left _ h.lent
  kept := by
    rw [returned_concat, hreturned, Option.toList_none, List.append_nil]
    exact h.kept
  latest := latest_concat_of_eq hleft
  capacity_eq := fun hkeeps => by
    obtain ⟨asked, first, hmem, hticket, hfirst⟩ := h.capacity_eq hkeeps
    exact ⟨asked, first, List.mem_append_left _ hmem, hticket, (hcapacity hkeeps).trans hfirst⟩

/-! ## The books -/

/-- These sets are on loan and no others, and all that happened was proper. -/
structure Books (system : System interface σ) (issued : σ → Nat → Prop) (owned : List Loan)
    (H : List (Entry interface)) (state : σ) : Prop where
  issued : ∀ ticket ∈ lent H, issued state ticket
  nodup : (lent H).Nodup
  balanced : (lent H).Perm (returned H ++ owned.map (·.ticket))
  held : ∀ loan ∈ owned, Held system H loan
  proper : Throughout (Proper system) H

namespace Books

variable {owned others : List Loan} {state after : σ} {set : NativeSet}

theorem start (state : σ) : Books system issued [] [] state where
  issued := fun _ h => absurd h List.not_mem_nil
  nodup := .nil
  balanced := .refl _
  held := fun _ h => absurd h List.not_mem_nil
  proper := throughout_nil _

theorem perm (h : Books system issued owned H state) (hperm : owned.Perm others) :
    Books system issued others H state where
  issued := h.issued
  nodup := h.nodup
  balanced := h.balanced.trans ((hperm.map _).append_left _)
  held := fun loan hloan => h.held loan (hperm.mem_iff.mpr hloan)
  proper := h.proper

/-- No other set on loan has the ticket of the first. -/
theorem ticket_ne (h : Books system issued (loan :: owned) H state) :
    ∀ other ∈ owned, other.ticket ≠ loan.ticket := by
  have hnodup := (List.nodup_append.mp (h.balanced.nodup_iff.mp h.nodup)).2.1
  rw [List.map_cons, List.nodup_cons] at hnodup
  intro other hother heq
  exact hnodup.1 (heq ▸ List.mem_map_of_mem hother)

/-- Where nothing is lent it remains to see who has the sets on loan afterwards. -/
theorem concat (h : Books system issued owned H state) (hlent : lentIn x = none)
    (hbalanced : (lent H).Perm (returned (H ++ [x]) ++ others.map (·.ticket)))
    (hheld : ∀ loan ∈ others, Held system (H ++ [x]) loan) (hproper : Proper system H x)
    (hlasting : ∀ ticket, issued state ticket → issued after ticket) :
    Books system issued others (H ++ [x]) after := by
  have hsame : lent (H ++ [x]) = lent H := by
    rw [lent_concat, hlent, Option.toList_none, List.append_nil]
  constructor
  case issued =>
    rw [hsame]
    exact fun ticket hticket => hlasting ticket (h.issued ticket hticket)
  case nodup =>
    rw [hsame]
    exact h.nodup
  case balanced =>
    rw [hsame]
    exact hbalanced
  case held => exact hheld
  case proper => exact throughout_concat h.proper hproper

/-- Nothing is lent, taken back or changed. -/
theorem aside (h : Books system issued owned H state)
    (hsilent : lentIn x = none ∧ returnedIn x = none ∧ leftIn x = none)
    (hproper : Proper system H x) (hlasting : ∀ ticket, issued state ticket → issued after ticket) :
    Books system issued owned (H ++ [x]) after := by
  obtain ⟨hlent, hreturned, hleft⟩ := hsilent
  refine h.concat hlent ?_ (fun loan hloan => ?_) hproper hlasting
  · rw [returned_concat, hreturned, Option.toList_none, List.append_nil]
    exact h.balanced
  · refine (h.held loan hloan).extend (by simp [hreturned]) fun other hother => ?_
    simp [hleft] at hother

/-- One more set is lent. -/
theorem lend (h : Books system issued owned H state) {capacity : Nat}
    (hfresh : ¬ issued state loan.ticket ∧ issued after loan.ticket)
    (hlasting : ∀ ticket, issued state ticket → issued after ticket) :
    Books system issued (loan :: owned) (H ++ [.call (.allocate capacity) (some loan)]) after := by
  have hnew : loan.ticket ∉ lent H := fun hmem => hfresh.1 (h.issued _ hmem)
  have hlent : lent (H ++ [.call (.allocate capacity) (some loan)]) = lent H ++ [loan.ticket] :=
    lent_concat
  have hreturned : returned (H ++ [.call (.allocate capacity) (some loan)]) = returned H :=
    returned_concat.trans (List.append_nil _)
  constructor
  case issued =>
    rw [hlent]
    intro ticket hticket
    rcases List.mem_append.mp hticket with hold | hlast
    · exact hlasting ticket (h.issued ticket hold)
    · obtain rfl := List.mem_singleton.mp hlast
      exact hfresh.2
  case nodup =>
    rw [hlent]
    exact (List.perm_append_singleton _ _).nodup_iff.mpr (List.nodup_cons.mpr ⟨hnew, h.nodup⟩)
  case balanced =>
    rw [hlent, hreturned, List.map_cons]
    exact (List.perm_append_singleton _ _).trans
      ((h.balanced.cons _).trans List.perm_middle.symm)
  case held =>
    intro other hother
    rcases List.mem_cons.mp hother with rfl | hother
    -- a set that was never lent was not taken back either
    · have hreturn : other.ticket ∉ returned H := fun hmem =>
        hnew (h.balanced.mem_iff.mpr (List.mem_append_left _ hmem))
      refine ⟨?_, ?_, latest_concat_of_eq rfl, fun _ => ?_⟩
      · rw [hlent]
        exact List.mem_append_right _ (List.mem_singleton.mpr rfl)
      · rwa [hreturned]
      · exact ⟨capacity, other, List.mem_append_right _ (List.mem_singleton.mpr rfl), rfl, rfl⟩
    -- the others were lent before, so their tickets are not the new one
    · have hheld := h.held other hother
      refine hheld.extend nofun ?_
      rintro _ ⟨⟩ heq
      exact hnew (heq ▸ hheld.lent)
  case proper => exact throughout_concat h.proper trivial

/-- The first set is given back. -/
theorem giveBack (h : Books system issued (loan :: owned) H state)
    (hlasting : ∀ ticket, issued state ticket → issued after ticket) :
    Books system issued owned (H ++ [.call (.release loan) ()]) after := by
  have hproper := h.held loan List.mem_cons_self
  refine h.concat rfl ?_ (fun other hother => ?_) hproper hlasting
  · have hreturned : returned (H ++ [.call (.release loan) ()]) = returned H ++ [loan.ticket] :=
      returned_concat
    rw [hreturned, List.append_assoc]
    exact h.balanced
  · refine (h.held other (List.mem_cons_of_mem loan hother)).extend ?_ nofun
    exact fun heq => h.ticket_ne other hother (Option.some.inj heq).symm

/-- The first set is changed. -/
theorem change (h : Books system issued (loan :: owned) H state)
    (hsilent : lentIn x = none ∧ returnedIn x = none)
    (hleft : leftIn x = some ⟨loan.ticket, set⟩) (hproper : Proper system H x)
    (hcapacity : KeepsCapacity system → set.capacity = loan.set.capacity)
    (hlasting : ∀ ticket, issued state ticket → issued after ticket) :
    Books system issued (⟨loan.ticket, set⟩ :: owned) (H ++ [x]) after := by
  obtain ⟨hlent, hreturned⟩ := hsilent
  have hsame : returned (H ++ [x]) = returned H := by
    rw [returned_concat, hreturned, Option.toList_none, List.append_nil]
  refine h.concat hlent (hsame ▸ h.balanced) (fun other hother => ?_) hproper hlasting
  rcases List.mem_cons.mp hother with rfl | hother
  · exact (h.held loan List.mem_cons_self).change hreturned hleft hcapacity
  · refine (h.held other (List.mem_cons_of_mem loan hother)).extend (by simp [hreturned]) ?_
    rw [hleft]
    rintro _ ⟨⟩
    exact (h.ticket_ne other hother).symm

end Books

/-! ## The ledger -/

/-- The books, where a fresh set may be on no editor's account yet and the editors' sets
were cleared. -/
structure Ledger (system : System interface σ) (issued : σ → Nat → Prop) (fresh : List Loan)
    (editors : List Editor) (H : List (Entry interface)) (state : σ) : Prop where
  books : Books system issued (fresh ++ editors.map (·.loan)) H state
  cleared : ∀ editor ∈ editors, Cleared H editor.loan.ticket

namespace Ledger

variable {fresh : List Loan} {editor : Editor} {editors : List Editor} {state after : σ}

theorem ready (h : Ledger system issued fresh (editor :: editors) H state) :
    Held system H editor.loan ∧ Cleared H editor.loan.ticket :=
  ⟨h.books.held _ (List.mem_append_right _ List.mem_cons_self), h.cleared _ List.mem_cons_self⟩

theorem aside (h : Ledger system issued fresh editors H state)
    (hsilent : lentIn x = none ∧ returnedIn x = none ∧ leftIn x = none)
    (hproper : Proper system H x) (hlasting : ∀ ticket, issued state ticket → issued after ticket) :
    Ledger system issued fresh editors (H ++ [x]) after where
  books := h.books.aside hsilent hproper hlasting
  cleared := fun editor heditor => (h.cleared editor heditor).append [x]

theorem note (h : Ledger system issued fresh editors H state) (event : Event) :
    Ledger system issued fresh editors (H ++ [.event event]) state :=
  h.aside ⟨rfl, rfl, rfl⟩ trivial fun _ hticket => hticket

/-- What is lent is on no editor's account yet. -/
theorem lend (h : Ledger system issued [] editors H state) {capacity : Nat} (loan? : Option Loan)
    (hfresh : ∀ loan, loan? = some loan → ¬ issued state loan.ticket ∧ issued after loan.ticket)
    (hlasting : ∀ ticket, issued state ticket → issued after ticket) :
    Ledger system issued loan?.toList editors (H ++ [.call (.allocate capacity) loan?]) after := by
  cases loan? with
  | none => exact h.aside ⟨rfl, rfl, rfl⟩ trivial hlasting
  | some loan =>
      exact ⟨h.books.lend (hfresh loan rfl) hlasting,
        fun editor heditor => (h.cleared editor heditor).append _⟩

theorem giveBack (h : Ledger system issued [loan] editors H state)
    (hlasting : ∀ ticket, issued state ticket → issued after ticket) :
    Ledger system issued [] editors (H ++ [.call (.release loan) ()]) after where
  books := h.books.giveBack hlasting
  cleared := fun editor heditor => (h.cleared editor heditor).append _

/-- A fresh set is cleared and goes to an editor. -/
theorem clear (h : Ledger system issued [loan] editors H state) (thread : Thread) {set : NativeSet}
    (hcapacity : KeepsCapacity system → set.capacity = loan.set.capacity)
    (hlasting : ∀ ticket, issued state ticket → issued after ticket) :
    Ledger system issued [] (⟨thread, ⟨loan.ticket, set⟩⟩ :: editors)
      (H ++ [.call (.clear loan) set]) after where
  books := h.books.change ⟨rfl, rfl⟩ rfl (h.books.held _ List.mem_cons_self) hcapacity hlasting
  cleared := by
    intro editor heditor
    rcases List.mem_cons.mp heditor with rfl | heditor
    · exact ⟨loan, set, List.mem_append_right _ (List.mem_singleton.mpr rfl), rfl⟩
    · exact (h.cleared editor heditor).append _

theorem select (h : Ledger system issued [] (editor :: editors) H state) (p : Nat) {set : NativeSet}
    (hcapacity : KeepsCapacity system → set.capacity = editor.loan.set.capacity)
    (hlasting : ∀ ticket, issued state ticket → issued after ticket) :
    Ledger system issued [] (⟨editor.thread, ⟨editor.loan.ticket, set⟩⟩ :: editors)
      (H ++ [.call (.select p editor.loan) set]) after where
  books := h.books.change ⟨rfl, rfl⟩ rfl h.ready hcapacity hlasting
  cleared := by
    intro other hother
    rcases List.mem_cons.mp hother with rfl | hother
    · exact h.ready.2.append _
    · exact (h.cleared other (List.mem_cons_of_mem editor hother)).append _

end Ledger

/-! ## The backend -/

/-- The flat backend keeps its ledger straight. -/
theorem accounts (hnumbered : Numbered system issued) (label : String) :
    (backend label).Accounts system (fun _ => True) (Ledger system issued []) where
  perm := fun hperm h =>
    ⟨h.books.perm (hperm.map _), fun editor heditor => h.cleared editor (hperm.mem_iff.mpr heditor)⟩
  note := fun event _ h => h.note event
  processorCount := fun editors =>
    leads_ask (fun _ => Ledger system issued [] editors)
      (fun H state h => h.aside ⟨rfl, rfl, rfl⟩ trivial (hnumbered.lasting _ state))
      fun _ => leads_done fun _ _ h => h
  currentThread := fun editors =>
    leads_ask (fun _ => Ledger system issued [] editors)
      (fun H state h => h.aside ⟨rfl, rfl, rfl⟩ trivial (hnumbered.lasting _ state))
      fun _ => leads_done fun _ _ h => h
  openEditor := fun thread editors => by
    refine leads_ask (fun loan? => Ledger system issued loan?.toList editors) ?_ ?_
    · intro H state h
      exact h.lend _ (hnumbered.fresh _ state) (hnumbered.lasting _ state)
    · rintro (_ | loan)
      · exact leads_done fun _ _ h => h
      · simp only
        split
        -- a set that is too small goes back before it is on any editor's account
        · refine leads_ask (fun _ => Ledger system issued [] editors) ?_ ?_
          · exact fun H state h => h.giveBack (hnumbered.lasting _ state)
          · exact fun _ => leads_done fun _ _ h => h
        · refine leads_ask (fun set =>
            Ledger system issued [] (⟨thread, ⟨loan.ticket, set⟩⟩ :: editors)) ?_ ?_
          · exact fun H state h =>
              h.clear thread (fun hkeeps => hkeeps.1 loan state) (hnumbered.lasting _ state)
          · exact fun _ => leads_done fun _ _ h => h
  select := fun p editor editors => by
    change (editor.select p).Leads _ _ _
    unfold Editor.select
    split
    · exact leads_done fun _ _ h => ⟨fun _ => trivial, h⟩
    · refine leads_note (fun _ _ h => h.note _) ?_
      refine leads_ask (fun set =>
        Ledger system issued [] (⟨editor.thread, ⟨editor.loan.ticket, set⟩⟩ :: editors)) ?_ ?_
      · exact fun H state h =>
          h.select p (fun hkeeps => hkeeps.2 p editor.loan state) (hnumbered.lasting _ state)
      · exact fun _ => leads_done fun _ _ h => ⟨fun _ => trivial, h⟩
  apply := fun editor editors => by
    refine leads_ask (fun _ => Ledger system issued [] (editor :: editors)) ?_ fun size => ?_
    · exact fun H state h => h.aside ⟨rfl, rfl, rfl⟩ h.ready (hnumbered.lasting _ state)
    · refine leads_ask (fun _ => Ledger system issued [] (editor :: editors)) ?_ ?_
      · exact fun H state h => h.aside ⟨rfl, rfl, rfl⟩ h.ready (hnumbered.lasting _ state)
      · rintro (cause | granted)
        · exact leads_done fun _ _ h => h
        · exact leads_note (fun _ _ h => h.note _) (leads_done fun _ _ h => h)
  close := fun editor editors => by
    refine leads_ask (fun _ => Ledger system issued [] editors) (fun H state h => ?_)
      fun _ => leads_done fun _ _ h => h
    have hfresh : Ledger system issued [editor.loan] editors H state :=
      ⟨h.books, fun other hother => h.cleared other (List.mem_cons_of_mem editor hother)⟩
    exact hfresh.giveBack (hnumbered.lasting _ state)

/-! ## Sessions -/

/-- The sets that were lent out, each with its own ticket, are those that were taken back
and those of these editors, each of them just as the system left it last. -/
structure Balanced (entries : List (Entry interface)) (editors : List Editor) : Prop where
  nodup : (lent entries).Nodup
  perm : (lent entries).Perm (returned entries ++ editors.map (·.loan.ticket))
  latest : ∀ editor ∈ editors, latest entries editor.loan.ticket = some editor.loan

theorem Ledger.balanced {editors : List Editor} {state : σ}
    (h : Ledger system issued [] editors H state) : Balanced H editors where
  nodup := h.books.nodup
  perm := by simpa [Function.comp_def] using h.books.balanced
  latest := fun editor heditor => (h.books.held editor.loan (List.mem_map_of_mem heditor)).latest

/-- Over a system that tells its loans apart, the sets on loan are at every point those of
the open editors, every set was given back exactly once when a session is over, and all
that is asked meanwhile is proper. -/
theorem run_settles (hnumbered : Numbered system issued) (label : String) (steps : List Step)
    (state : σ) :
    let setup : Setup interface Editor := ⟨backend label, backend label⟩
    let progress := playAll setup system steps .empty state
    let history := Session.run setup system steps state
    Balanced progress.entries progress.table.editors ∧ Balanced history.entries [] ∧
      Throughout (Proper system) history.entries := by
  intro setup progress history
  have haccounts := accounts hnumbered label
  have hstart : Ledger system issued [] [] [] state := ⟨.start state, nofun⟩
  obtain ⟨-, hplayed⟩ := playAll_accounts setup haccounts haccounts steps .empty hstart
  obtain ⟨-, after, hover⟩ := run_accounts setup haccounts haccounts steps state hstart
  exact ⟨hplayed.balanced, hover.balanced, hover.books.proper⟩

/-- No set, a set that is too small and a refused binding; two editors are left open and a
number is given to another editor. -/
theorem run_settles_on_every_path :
    let setup : Setup interface Editor := ⟨backend "scripted", backend "scripted"⟩
    let script : Script :=
      ⟨4, .caller, [none, some 100, some 1100], [3], some 0, [.ok (), .error (.code 22)], 0⟩
    let steps : List Step :=
      [.bindThread (.handle 7) 0, .openEditor 0 (.handle 7), .openEditor 0 (.handle 7), .select 0 5,
        .apply 0, .bindCurrent 2, .openCurrent 1, .select 1 2000, .openEditor 0 .caller]
    let progress := playAll setup scripted steps .empty script
    let history := Session.run setup scripted steps script
    Numbered scripted (fun script ticket => ticket < script.lent) ∧ KeepsCapacity scripted ∧
      Balanced progress.entries progress.table.editors ∧ Balanced history.entries [] ∧
      Throughout (Proper scripted) history.entries :=
  ⟨numbered_scripted, keepsCapacity_scripted, run_settles numbered_scripted "scripted" _ _⟩

end Flat

end ThreadAffinity
