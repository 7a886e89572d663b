import ThreadAffinity.Proofs.Grouped.History

/-!
# Behind the last group

A processor that no group owns makes a group editor leave its group: what waits is applied,
and if the system grants that, the editor goes on until it is behind the last group. That is
the end of it. There is no way back to a group, so nothing is accepted any more, nothing waits,
and the system is never asked again (`Exhausted.course`).

Nothing is lost by it. The invariant of `Told` says that whatever was accepted in a group
behind the editor is granted, and by now that is every group.
-/

namespace ThreadAffinity

namespace Grouped

open ThreadAffinity.Group Backend

variable {σ : Type} {groups : List Group} {thread : Thread} {H : History} {e : Editor}
  {p q : Nat}

/-! ## The end -/

/-- The editor is behind the last group, where nothing waits. -/
structure Editor.Exhausted (e : Editor) : Prop where
  standing : e.Standing
  index_eq : e.index = e.groups.length
  mask_eq : e.pending.mask = 0

/-- Why a move fails behind the last group. -/
def futility (groups : List Group) : Move → Error
  | .select q => if q < total groups then .orderViolation q (total groups) else .notFound q
  | .apply => .emptySelection

theorem futility_of_lt (hq : q < total groups) :
    futility groups (.select q) = .orderViolation q (total groups) := if_pos hq

theorem futility_of_le (hq : total groups ≤ q) :
    futility groups (.select q) = .notFound q := if_neg (Nat.not_lt.mpr hq)

theorem Editor.Standing.exhausted (he : e.Standing) :
    (e.movedTo e.groups.length).Exhausted where
  standing := he.movedTo (Nat.le_refl _)
  index_eq := rfl
  mask_eq := rfl

theorem Editor.Exhausted.start_eq (he : e.Exhausted) : e.start = total e.groups := by
  rw [he.standing.start_eq, he.index_eq, startOf_of_length_le (Nat.le_refl _)]

theorem Editor.Exhausted.not_owns (he : e.Exhausted) : ¬ Owns e.groups e.index q := by
  intro hown
  have := hown.lt_length
  have := he.index_eq
  omega

theorem Editor.Exhausted.select (he : e.Exhausted) (q : Nat) (system : System interface σ)
    (state : σ) :
    let made := (e.select q).run system state
    made.value.1 = .error (futility e.groups (.select q)) ∧ exchangesOf made.entries = [] ∧
      made.value.2.Exhausted ∧ made.value.2.groups = e.groups := by
  obtain ⟨entries, result, kept, after, hrun, hselected⟩ :=
    select_ends he.standing q system state
  have hindex := he.index_eq
  rw [hrun]
  cases hselected with
  | late hlate =>
      rw [he.start_eq] at hlate ⊢
      rw [futility_of_lt hlate]
      exact ⟨rfl, rfl, he, rfl⟩
  | joined i hseat => exact absurd hseat.owns he.not_owns
  | unseated hown ha => exact absurd hown he.not_owns
  | refused hstart hout hne cause => exact absurd he.mask_eq hne
  -- no group lies ahead
  | moved g i hg hseat =>
      have := hseat.owns.lt_length
      omega
  | movedUnseated g hg hown ha =>
      have := hown.lt_length
      omega
  | beyond hbeyond =>
      have hasked : exchangesOf e.leaving = [] := by
        rw [exchangesOf_leaving, due_of_zero he.mask_eq, List.map_nil]
      rw [futility_of_le hbeyond]
      exact ⟨rfl, hasked, he.standing.exhausted, rfl⟩

theorem Editor.Exhausted.apply (he : e.Exhausted) (system : System interface σ) (state : σ) :
    let made := e.apply.run system state
    made.value.1 = .error .emptySelection ∧ exchangesOf made.entries = [] ∧
      made.value.2.Exhausted ∧ made.value.2.groups = e.groups := by
  obtain ⟨entries, result, kept, after, hrun, happlied⟩ := apply_ends he.standing system state
  rw [hrun]
  cases happlied with
  | nothing hzero => exact ⟨rfl, rfl, he, rfl⟩
  | refused hne cause => exact absurd he.mask_eq hne
  | granted hne => exact absurd he.mask_eq hne

theorem Editor.Exhausted.make (he : e.Exhausted) (label : String) (groups : List Group)
    (move : Move) (system : System interface σ) (state : σ) :
    let made := ((backend label groups).make move e).run system state
    made.value.1 = .error (futility e.groups move) ∧ exchangesOf made.entries = [] ∧
      made.value.2.Exhausted ∧ made.value.2.groups = e.groups := by
  cases move with
  | select q => exact he.select q system state
  | apply => exact he.apply system state

/-- Nothing but failures happens any more, and nothing is asked. -/
theorem Editor.Exhausted.course (he : e.Exhausted) (label : String) (groups : List Group)
    (system : System interface σ) (moves : List Move) (state : σ) :
    ((backend label groups).course system moves e state).happenings =
      moves.map fun move => .answered move (.error (futility e.groups move)) := by
  induction moves generalizing e state with
  | nil => rfl
  | cons move moves ih =>
      obtain ⟨hvalue, hasked, hkept, hgroups⟩ := he.make label groups move system state
      have hrest := ih hkept (((backend label groups).make move e).run system state).state
      simp only [Backend.course, happeningsOf, hvalue, hasked, hrest, hgroups, List.map_nil,
        List.nil_append, List.map_cons, List.singleton_append]

/-! ## What was accepted before -/

/-- The system has granted a binding of the thread to the seat of the processor. -/
def Secured (groups : List Group) (thread : Thread) (H : History) (q : Nat) : Prop :=
  ∃ affinity i, .asked (.bind thread affinity) (.ok ()) ∈ H ∧
    Seated groups affinity.group q i ∧ affinity.mask.getLsbD i = true

theorem Delivered.secured {g : Nat} (h : Delivered groups thread H g) (hq : Accepted H q)
    (hown : Owns groups g q) (ha : Addressable groups q) : Secured groups thread H q := by
  obtain ⟨affinity, hmem, rfl, hholds⟩ := h
  obtain ⟨i, hseat⟩ := hown.exists_seated ha
  exact ⟨affinity, i, hmem, hseat, (hholds i).mpr ⟨q, hq, hseat⟩⟩

theorem Told.secured (h : Told groups thread e H) (he : e.Exhausted) (hq : Accepted H q) :
    Secured groups thread H q := by
  obtain ⟨g, i, -, hseat⟩ := h.tracks.seated q hq
  -- every group is behind the editor, so the one of `q` is delivered
  have hlt : g < e.index := by
    rw [he.index_eq]
    exact hseat.owns.lt_length
  have hsecured := (h.delivered g hlt ⟨q, hq, hseat.owns⟩).secured hq hseat.owns hseat.addressable
  rwa [h.groups_eq] at hsecured

/-! ## Getting there -/

/-- A processor that no group owns is not accepted. Either the system refuses to let the editor
go, or the editor is exhausted afterwards. -/
theorem Editor.select_beyond_ends (he : e.Standing) (hp : total e.groups ≤ p)
    (system : System interface σ) (state : σ) :
    let made := (e.select p).run system state
    (∃ cause, made.value = (.error (.refused .setGroupAffinity cause), e) ∧
      exchangesOf made.entries = [⟨.bind e.thread ⟨e.index, e.pending.mask⟩, .error cause⟩]) ∨
    (made.value.1 = .error (.notFound p) ∧ made.value.2.Exhausted) := by
  obtain ⟨entries, result, kept, after, hrun, hselected⟩ := select_ends he p system state
  have hout : ∀ g, ¬ Owns e.groups g p := fun g hown => Nat.not_lt.mpr hp hown.lt_total
  rw [hrun]
  cases hselected with
  | late hlate =>
      rw [he.start_eq] at hlate
      have := startOf_le_total e.groups e.index
      omega
  | joined i hseat => exact absurd hseat.owns (hout _)
  | unseated hown ha => exact absurd hown (hout _)
  | refused hstart hleft hne cause => exact Or.inl ⟨cause, rfl, rfl⟩
  | moved g i hg hseat => exact absurd hseat.owns (hout g)
  | movedUnseated g hg hown ha => exact absurd hown (hout g)
  | beyond hbeyond => exact Or.inr ⟨rfl, he.exhausted⟩

/-- Whatever was done with a group editor before, a processor beyond the last group is never
accepted. If it is not for a refusal of what waits, which leaves the editor as it was, it is
not found. Then every later move fails, for a reason that depends on the move only, and the
system is not asked again; and all that was accepted before had been granted. -/
theorem select_beyond_exhausts {bytes : List UInt8}
    (haccepted : Topology.decode bytes = .ok groups) (label : String) (thread : Thread)
    (system : System interface σ) (moves : List Move) (state : σ) (hp : total groups ≤ p) :
    let course := (backend label groups).course system moves (Editor.new groups thread) state
    let made := ((backend label groups).select p course.editor).run system course.state
    let history := course.happenings ++ happeningsOf (.select p) made.value.1 made.entries
    (∃ cause, made.value = (.error (.refused .setGroupAffinity cause), course.editor) ∧
      exchangesOf made.entries =
        [⟨.bind thread ⟨course.editor.index, course.editor.pending.mask⟩, .error cause⟩]) ∨
    (made.value.1 = .error (.notFound p) ∧
      (∀ {τ : Type} (other : System interface τ) (now : τ) (later : List Move),
        ((backend label groups).course other later made.value.2 now).happenings =
          later.map fun move => .answered move (.error (futility groups move))) ∧
      ∀ q, Accepted course.happenings q → Secured groups thread history q) := by
  intro course made history
  have few : groups.length < groupNumberLimit := (Topology.length_of_decode haccepted).2
  have htold : Told groups thread course.editor course.happenings :=
    told_course few label thread system moves state
  have hmade : Told groups thread made.value.2 history := htold.select p system course.state
  have hends := Editor.select_beyond_ends htold.tracks.standing (htold.groups_eq ▸ hp) system
    course.state
  rw [htold.thread_eq] at hends
  rcases hends with hrefused | ⟨hvalue, hexhausted⟩
  · exact Or.inl hrefused
  · refine Or.inr ⟨hvalue, fun other now later => ?_, fun q hq => ?_⟩
    · rw [← hmade.groups_eq]
      exact hexhausted.course label _ other later now
    · exact hmade.secured hexhausted (List.mem_append_left _ hq)

/-- The system first refuses to let the editor leave the first group, so that it takes a second
attempt to get behind the last one. -/
theorem select_beyond_exhausts_after_refusal :
    let groups : List Group := [⟨2, 3⟩, ⟨0, 0⟩, ⟨2, 0xa⟩]
    let moves : List Move := [.select 1, .apply, .select 9]
    let script : Script :=
      ⟨[], .caller, (.ok (), 0), (.ok (), 0), true, [.ok (), .error (.code 5)]⟩
    Topology.decode (Topology.groupRecord groups) = .ok groups ∧ total groups ≤ 9 ∧
      let course := (backend "scripted" groups).course scripted moves
        (Editor.new groups (.handle 7)) script
      let made := ((backend "scripted" groups).select 9 course.editor).run scripted course.state
      let history := course.happenings ++ happeningsOf (.select 9) made.value.1 made.entries
      (∃ cause, made.value = (.error (.refused .setGroupAffinity cause), course.editor) ∧
        exchangesOf made.entries =
          [⟨.bind (.handle 7) ⟨course.editor.index, course.editor.pending.mask⟩, .error cause⟩]) ∨
      (made.value.1 = .error (.notFound 9) ∧
        (∀ {τ : Type} (other : System interface τ) (now : τ) (later : List Move),
          ((backend "scripted" groups).course other later made.value.2 now).happenings =
            later.map fun move => .answered move (.error (futility groups move))) ∧
        ∀ q, Accepted course.happenings q → Secured groups (.handle 7) history q) := by
  intro groups moves script
  have haccepted : Topology.decode (Topology.groupRecord groups) = .ok groups :=
    Topology.decode_groupRecord (by decide) (by decide)
  have hbeyond : total groups ≤ 9 := by decide
  exact ⟨haccepted, hbeyond,
    select_beyond_exhausts haccepted "scripted" (.handle 7) scripted moves script hbeyond⟩

end Grouped

end ThreadAffinity
