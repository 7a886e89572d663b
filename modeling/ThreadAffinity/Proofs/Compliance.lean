import ThreadAffinity.Dialogue

/-!
# What a dialogue comes to as long as the system complies

A rule says which replies a system ought to give. `Yields` is the contract of a dialogue
under a rule: in every run in which all entries are as the rule has them, whatever system
gave the replies, the result and the transcript are as promised. Nothing is promised of a run
in which the rule was broken.

Contracts are put together along `bind` (`Yields.bind`); the promise about the second part is
made with the transcript of the first part in front.
-/

namespace ThreadAffinity

namespace Dialogue

variable {I : Interface} {α β : Type} {rule : Entry I → Prop}

/-- Whenever all entries of a run are as the rule has them, the result and the entries are as
in `post`. -/
def Yields (rule : Entry I → Prop) (d : Dialogue I α) (post : α → List (Entry I) → Prop) : Prop :=
  ∀ (σ : Type) (system : System I σ) (state : σ),
    (∀ entry ∈ (d.run system state).entries, rule entry) →
      post (d.run system state).value (d.run system state).entries

theorem yields_done {value : α} {post : α → List (Entry I) → Prop} (h : post value []) :
    (done value : Dialogue I α).Yields rule post :=
  fun _ _ _ _ => h

theorem yields_note {event : Event} {rest : Dialogue I α} {post : α → List (Entry I) → Prop}
    (h : rest.Yields rule fun value entries => post value (.event event :: entries)) :
    (note event rest).Yields rule post := by
  intro σ system state hrule
  exact h σ system state fun entry hentry => hrule entry (List.mem_cons_of_mem _ hentry)

theorem yields_ask {request : I.Request} {next : I.Reply request → Dialogue I α}
    {post : α → List (Entry I) → Prop}
    (h : ∀ reply, rule (.call request reply) →
      (next reply).Yields rule fun value entries => post value (.call request reply :: entries)) :
    (ask request next).Yields rule post := by
  intro σ system state hrule
  exact h _ (hrule _ List.mem_cons_self) σ system _ fun entry hentry =>
    hrule entry (List.mem_cons_of_mem _ hentry)

theorem Yields.bind {d : Dialogue I α} {k : α → Dialogue I β}
    {mid : α → List (Entry I) → Prop} {post : β → List (Entry I) → Prop}
    (hd : d.Yields rule mid)
    (hk : ∀ a front, mid a front →
      (k a).Yields rule fun value entries => post value (front ++ entries)) :
    (d.bind k).Yields rule post := by
  intro σ system state
  rw [run_bind]
  intro hrule
  have hfirst := hd σ system state fun entry hentry => hrule entry (List.mem_append_left _ hentry)
  exact hk _ _ hfirst σ system _ fun entry hentry => hrule entry (List.mem_append_right _ hentry)

theorem Yields.imp {d : Dialogue I α} {post weaker : α → List (Entry I) → Prop}
    (h : d.Yields rule post) (himp : ∀ value entries, post value entries → weaker value entries) :
    d.Yields rule weaker :=
  fun σ system state hrule => himp _ _ (h σ system state hrule)

/-- A system that complies as long as its state is as it should be, and leaves it so,
complies with every dialogue. -/
theorem complies_of_invariant {σ : Type} {system : System I σ} (Inv : σ → Prop)
    (hnote : ∀ event, rule (.event event))
    (hanswer : ∀ request state, Inv state →
      rule (.call request (system.answer request state).1) ∧ Inv (system.answer request state).2)
    (d : Dialogue I α) {state : σ} (hstate : Inv state) :
    ∀ entry ∈ (d.run system state).entries, rule entry := by
  induction d generalizing state with
  | done value => exact fun _ hentry => absurd hentry List.not_mem_nil
  | ask request next ih =>
      obtain ⟨hrule, hafter⟩ := hanswer request state hstate
      intro entry hentry
      rcases List.mem_cons.mp hentry with rfl | hentry
      · exact hrule
      · exact ih _ hafter entry hentry
  | note event rest ih =>
      intro entry hentry
      rcases List.mem_cons.mp hentry with rfl | hentry
      · exact hnote event
      · exact ih hstate entry hentry

end Dialogue

end ThreadAffinity
