import ThreadAffinity.Bind

/-!
# Keeping account of what is open

An account is a relation between the editors that are open, all that was written down so
far and the state of the system. `Leads` is the contract of a dialogue in such terms:
where it starts from and where it ends, the transcript so far included. Contracts are put
together along `bind` (`Leads.bind`), so a caller is judged by the contracts of what it
calls. What a contract says of the result alone is a hypothesis in what comes after
(`leads_of_and`).

A backend that `Accounts` for its editors keeps an account straight with each of its
operations: opening puts an editor on it, selecting and applying put one in place of
another and closing takes one off. The processors it accepts are good, whatever that may
be. Whatever is done in one go with such a backend opens as much as it closes, and it
succeeds with good processors only. The theorems under *Operations* say so, one for each.

Many accounts look at each editor by itself and at what was written down; these are
`Orderly`.
-/

namespace ThreadAffinity

variable {I : Interface} {E σ α β : Type}

namespace Dialogue

/-- From wherever `pre` holds of what was written down and of the state of the system, the
dialogue gets to where `post` holds of its result. -/
def Leads (system : System I σ) (pre : List (Entry I) → σ → Prop) (d : Dialogue I α)
    (post : α → List (Entry I) → σ → Prop) : Prop :=
  ∀ H state, pre H state →
    let out := d.run system state
    post out.value (H ++ out.entries) out.state

variable {system : System I σ} {pre : List (Entry I) → σ → Prop}
  {post : α → List (Entry I) → σ → Prop}

theorem leads_done {value : α} (h : ∀ H state, pre H state → post value H state) :
    (done value : Dialogue I α).Leads system pre post := by
  intro H state hpre
  simpa using h H state hpre

theorem leads_note {event : Event} {rest : Dialogue I α} {mid : List (Entry I) → σ → Prop}
    (hnote : ∀ H state, pre H state → mid (H ++ [.event event]) state)
    (h : rest.Leads system mid post) : (note event rest).Leads system pre post := by
  intro H state hpre
  simpa using h _ state (hnote H state hpre)

theorem leads_ask {request : I.Request} {next : I.Reply request → Dialogue I α}
    (mid : I.Reply request → List (Entry I) → σ → Prop)
    (hask : ∀ H state, pre H state →
      let answer := system.answer request state
      mid answer.1 (H ++ [.call request answer.1]) answer.2)
    (h : ∀ reply, (next reply).Leads system (mid reply) post) :
    (ask request next).Leads system pre post := by
  intro H state hpre
  simpa using h _ _ _ (hask H state hpre)

theorem leads_of_and {d : Dialogue I α} {known : Prop} (h : known → d.Leads system pre post) :
    d.Leads system (fun H state => known ∧ pre H state) post :=
  fun H state hstart => h hstart.1 H state hstart.2

theorem Leads.of_imp {d : Dialogue I α} {stronger : List (Entry I) → σ → Prop}
    (h : d.Leads system pre post) (hpre : ∀ H state, stronger H state → pre H state) :
    d.Leads system stronger post :=
  fun H state hstart => h H state (hpre H state hstart)

theorem Leads.imp {d : Dialogue I α} {weaker : α → List (Entry I) → σ → Prop}
    (h : d.Leads system pre post) (hpost : ∀ a H state, post a H state → weaker a H state) :
    d.Leads system pre weaker :=
  fun H state hstart => hpost _ _ _ (h H state hstart)

theorem Leads.bind {d : Dialogue I α} {k : α → Dialogue I β}
    {mid : α → List (Entry I) → σ → Prop} {post : β → List (Entry I) → σ → Prop}
    (hd : d.Leads system pre mid) (hk : ∀ a, (k a).Leads system (mid a) post) :
    (d.bind k).Leads system pre post := by
  intro H state hpre
  have hafter := hk _ _ _ (hd H state hpre)
  simpa only [run_bind, List.append_assoc] using hafter

end Dialogue

/-! ## Backends -/

namespace Backend

/-- The editors that opening came to: one, or none. -/
def gained : Except Error E → List E
  | .ok editor => [editor]
  | .error _ => []

/-- With this system the account `Inv` of the open editors is kept straight, and the
processors that are accepted are `good`. In what order the editors are listed makes no
difference, nor does an error that is logged. -/
structure Accounts (backend : Backend I E) (system : System I σ) (good : Nat → Prop)
    (Inv : List E → List (Entry I) → σ → Prop) : Prop where
  perm : ∀ {editors others : List E} {H state}, editors.Perm others → Inv editors H state →
    Inv others H state
  note : ∀ {editors H state} event, event.level = .error → Inv editors H state →
    Inv editors (H ++ [.event event]) state
  processorCount : ∀ editors,
    backend.processorCount.Leads system (Inv editors) fun _ => Inv editors
  currentThread : ∀ editors,
    backend.currentThread.Leads system (Inv editors) fun _ => Inv editors
  openEditor : ∀ thread editors, (backend.openEditor thread).Leads system (Inv editors)
    fun opened => Inv (gained opened ++ editors)
  select : ∀ p editor editors, (backend.select p editor).Leads system (Inv (editor :: editors))
    fun selected H state =>
      (selected.1 = .ok () → good p) ∧ Inv (selected.2 :: editors) H state
  apply : ∀ editor editors, (backend.apply editor).Leads system (Inv (editor :: editors))
    fun applied => Inv (applied.2 :: editors)
  close : ∀ editor editors, (backend.close editor).Leads system (Inv (editor :: editors))
    fun _ => Inv editors

namespace Accounts

variable {backend : Backend I E} {system : System I σ} {good : Nat → Prop}
  {Inv : List E → List (Entry I) → σ → Prop}

open Dialogue

/-! ## Inside an editor -/

theorem selectAll (h : backend.Accounts system good Inv) (processors : List Nat) (editor : E)
    (editors : List E) :
    (backend.selectAll processors editor).Leads system (Inv (editor :: editors))
      fun selected H state =>
        (selected.1 = .ok () → ∀ p ∈ processors, good p) ∧ Inv (selected.2 :: editors) H state := by
  induction processors generalizing editor with
  | nil => exact leads_done fun _ _ hInv => ⟨fun _ => List.forall_mem_nil _, hInv⟩
  | cons p processors ih =>
      refine (h.select p editor editors).bind ?_
      rintro ⟨error | granted, kept⟩
      · exact leads_done fun _ _ hkept => ⟨nofun, hkept.2⟩
      · refine leads_of_and fun hgood => (ih kept).imp fun _ _ _ hrest => ⟨fun hok => ?_, hrest.2⟩
        exact List.forall_mem_cons.mpr ⟨hgood rfl, hrest.1 hok⟩

theorem applyAll (h : backend.Accounts system good Inv) (processors : List Nat) (editor : E)
    (editors : List E) :
    (backend.applyAll processors editor).Leads system (Inv (editor :: editors))
      fun applied H state =>
        (applied.1 = .ok () → ∀ p ∈ processors, good p) ∧ Inv (applied.2 :: editors) H state := by
  refine (h.selectAll processors editor editors).bind ?_
  rintro ⟨error | granted, kept⟩
  · exact leads_done fun _ _ hkept => ⟨nofun, hkept.2⟩
  · refine leads_of_and fun hgood => (h.apply kept editors).imp fun _ _ _ hInv => ?_
    exact ⟨fun _ => hgood rfl, hInv⟩

/-- What is opened for some work is closed after it, however the work ends. -/
theorem withEditor (h : backend.Accounts system good Inv) (thread : Thread) (editors : List E)
    {work : E → Dialogue I (Except Error Unit × E)} {Q : Prop}
    (hwork : ∀ editor, (work editor).Leads system (Inv (editor :: editors))
      fun worked H state => (worked.1 = .ok () → Q) ∧ Inv (worked.2 :: editors) H state) :
    (backend.withEditor thread work).Leads system (Inv editors)
      fun result H state => (result = .ok () → Q) ∧ Inv editors H state := by
  refine (h.openEditor thread editors).bind ?_
  rintro (error | editor)
  · exact leads_done fun _ _ hInv => ⟨nofun, hInv⟩
  · refine (hwork editor).bind ?_
    rintro ⟨result, kept⟩
    refine leads_of_and fun hresult => (h.close kept editors).bind fun _ => ?_
    exact leads_done fun _ _ hInv => ⟨hresult, hInv⟩

/-! ## Operations -/

theorem bindThread (h : backend.Accounts system good Inv) (thread : Thread) (p : Nat)
    (editors : List E) :
    (backend.bindThread thread p).Leads system (Inv editors)
      fun result H state => (result = .ok () → good p) ∧ Inv editors H state := by
  rw [bindThread_eq_withEditor]
  refine h.withEditor thread editors fun editor => ?_
  simpa only [List.forall_mem_singleton] using h.applyAll [p] editor editors

theorem bindThreadTo (h : backend.Accounts system good Inv) (thread : Thread) (mask : Mask)
    (editors : List E) :
    (backend.bindThreadTo thread mask).Leads system (Inv editors) fun result H state =>
      (result = .ok () → ∀ p ∈ mask.members, good p) ∧ Inv editors H state := by
  unfold Backend.bindThreadTo
  split
  · exact leads_done fun _ _ hInv => ⟨nofun, hInv⟩
  · exact h.withEditor thread editors fun editor => h.applyAll mask.members editor editors

theorem bindCurrent (h : backend.Accounts system good Inv) (p : Nat) (editors : List E) :
    (backend.bindCurrent p).Leads system (Inv editors)
      fun result H state => (result = .ok () → good p) ∧ Inv editors H state :=
  (h.currentThread editors).bind fun thread => h.bindThread thread p editors

theorem bindCurrentTo (h : backend.Accounts system good Inv) (mask : Mask) (editors : List E) :
    (backend.bindCurrentTo mask).Leads system (Inv editors) fun result H state =>
      (result = .ok () → ∀ p ∈ mask.members, good p) ∧ Inv editors H state :=
  (h.currentThread editors).bind fun thread => h.bindThreadTo thread mask editors

theorem tryBind (h : backend.Accounts system good Inv) (p : Nat) (editors : List E) :
    (backend.tryBind p).Leads system (Inv editors)
      fun worked H state => (worked = true → good p) ∧ Inv editors H state := by
  refine (h.bindCurrent p editors).bind ?_
  rintro (error | granted)
  · exact leads_note (fun _ _ hbound => h.note _ rfl hbound.2)
      (leads_done fun _ _ hInv => ⟨nofun, hInv⟩)
  · exact leads_done fun _ _ hbound => ⟨fun _ => hbound.1 rfl, hbound.2⟩

theorem tryBindTo (h : backend.Accounts system good Inv) (mask : Mask) (editors : List E) :
    (backend.tryBindTo mask).Leads system (Inv editors) fun worked H state =>
      (worked = true → ∀ p ∈ mask.members, good p) ∧ Inv editors H state := by
  refine (h.bindCurrentTo mask editors).bind ?_
  rintro (error | granted)
  · exact leads_note (fun _ _ hbound => h.note _ rfl hbound.2)
      (leads_done fun _ _ hInv => ⟨nofun, hInv⟩)
  · exact leads_done fun _ _ hbound => ⟨fun _ => hbound.1 rfl, hbound.2⟩

end Accounts

/-! ## Accounts of single editors -/

/-- Each open editor is `fit`, and what was written down is `proper`. -/
structure Orderly (fit : E → Prop) (proper : List (Entry I) → Prop) (editors : List E)
    (H : List (Entry I)) : Prop where
  editors : ∀ editor ∈ editors, fit editor
  written : proper H

namespace Orderly

variable {fit : E → Prop} {proper : List (Entry I) → Prop} {editors others : List E}
  {editor kept : E} {H back : List (Entry I)}

theorem perm (h : Orderly fit proper editors H) (hperm : editors.Perm others) :
    Orderly fit proper others H :=
  ⟨fun editor heditor => h.editors editor (hperm.mem_iff.mpr heditor), h.written⟩

theorem gain (h : Orderly fit proper editors H) {opened : Except Error E}
    (hfit : ∀ editor, opened = .ok editor → fit editor) (hproper : proper (H ++ back)) :
    Orderly fit proper (gained opened ++ editors) (H ++ back) := by
  cases opened with
  | error error => exact ⟨h.editors, hproper⟩
  | ok editor => exact ⟨List.forall_mem_cons.mpr ⟨hfit editor rfl, h.editors⟩, hproper⟩

theorem replace (h : Orderly fit proper (editor :: editors) H) (hfit : fit kept)
    (hproper : proper (H ++ back)) : Orderly fit proper (kept :: editors) (H ++ back) :=
  ⟨List.forall_mem_cons.mpr ⟨hfit, (List.forall_mem_cons.mp h.editors).2⟩, hproper⟩

theorem lose (h : Orderly fit proper (editor :: editors) H) (hproper : proper (H ++ back)) :
    Orderly fit proper editors (H ++ back) :=
  ⟨(List.forall_mem_cons.mp h.editors).2, hproper⟩

end Orderly

end Backend

end ThreadAffinity
