import ThreadAffinity.Grouped.Backend
import ThreadAffinity.Proofs.Account
import ThreadAffinity.Proofs.Grouped.Turn

/-!
# Keeping account of group editors

The editors of a group backend are all in order and know the groups of the backend. That
holds of each for itself and whatever the system replies, so it goes with any account of the
transcript: for that it is enough to look at the ends of selecting and applying and at the
question which thread is asking (`accounts_orderly`). Opening and closing leave nothing in the
transcript at all.
-/

namespace ThreadAffinity

namespace Grouped

variable {σ : Type} {groups : List Group}

/-- The editor is in order and knows these groups. -/
def Editor.Fit (groups : List Group) (e : Editor) : Prop := e.Standing ∧ e.groups = groups

theorem accounts_orderly (few : groups.length < groupNumberLimit) (label : String)
    (system : System interface σ) {proper : List (Entry interface) → Prop}
    (hnote : ∀ H event, event.level = .error → proper H → proper (H ++ [.event event]))
    (hcaller : ∀ H thread, proper H → proper (H ++ [.call .currentThread thread]))
    (hselect : ∀ H p e entries selected, e.groups = groups →
      Editor.Selected p e entries selected → proper H → proper (H ++ entries))
    (happly : ∀ H e entries applied, e.groups = groups → Editor.Applied e entries applied →
      proper H → proper (H ++ entries)) :
    (backend label groups).Accounts system (Group.Addressable groups)
      fun editors H _ => Backend.Orderly (Editor.Fit groups) proper editors H where
  perm := fun hperm h => h.perm hperm
  note := fun event herror h => ⟨h.editors, hnote _ event herror h.written⟩
  processorCount := fun _ => Dialogue.leads_done fun _ _ h => h
  currentThread := fun _ H _ h => ⟨h.editors, hcaller H _ h.written⟩
  openEditor := fun thread editors => Dialogue.leads_done fun _ _ h =>
    ⟨List.forall_mem_cons.mpr ⟨⟨Editor.standing_new thread few, rfl⟩, h.editors⟩, h.written⟩
  select := fun p e editors H state h => by
    obtain ⟨hstanding, hgroups⟩ := h.editors e List.mem_cons_self
    have hselected := Editor.select_run hstanding p system state
    refine ⟨fun hok => hgroups ▸ hselected.addressable hok, h.replace ?_ ?_⟩
    · exact ⟨hselected.standing hstanding, hselected.groups_eq.trans hgroups⟩
    · exact hselect H p e _ _ hgroups hselected h.written
  apply := fun e editors H state h => by
    obtain ⟨hstanding, hgroups⟩ := h.editors e List.mem_cons_self
    have happlied := Editor.apply_run hstanding system state
    have hkept : (e.apply.run system state).value.2 = e := happlied.editor_eq
    refine h.replace ?_ (happly H e _ _ hgroups happlied h.written)
    exact ⟨hkept.symm ▸ hstanding, (congrArg Editor.groups hkept).trans hgroups⟩
  close := fun e editors => Dialogue.leads_done fun _ _ h =>
    ⟨(List.forall_mem_cons.mp h.editors).2, h.written⟩

end Grouped

end ThreadAffinity
