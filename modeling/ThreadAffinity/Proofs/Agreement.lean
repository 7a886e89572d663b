import ThreadAffinity.Proofs.Compliance
import ThreadAffinity.Proofs.Flat.Selection
import ThreadAffinity.Proofs.Grouped.Delivery
import ThreadAffinity.Proofs.Mask.FiniteSet

/-!
# What a mask means to both backends

A thread can be bound to the same mask by either backend. The flat backend hands over one
set, the group backend a list of requests in which processors appear as positions of a group.
Read back as processor numbers (`processorAt?`), the requests are a cut of the mask into one
piece for each group, in order (`Splits`). So both backends bind to exactly the mask, as long
as the system does what it is asked and the groups have a seat for each processor they count.

On the flat side this is one contract (`Flat.bindThreadTo_yields`). On the group side it is
read off the plan for the mask: with no processor astray and no request refused the whole plan
is carried out (`Grouped.carriedOut_complied`), and a plan cuts its selection
(`Grouped.Plan.splits`).
-/

namespace ThreadAffinity

open Dialogue Backend

/-! ## The flat backend -/

namespace Flat

/-- The system did what it was asked: it lent a set that is large enough, cleared and filled
sets as it was told, and bound the thread. -/
def Complied : Entry interface → Prop
  | .call (.allocate capacity) lent =>
    ∃ loan, lent = some loan ∧ min capacity NativeSet.capacityLimit ≤ loan.set.capacity
  | .call (.clear loan) set => set = loan.set.clear
  | .call (.select p loan) set => set = (loan.set.insert p).2
  | .call (.bind _ _ _) verdict => verdict = .ok ()
  | _ => True

theorem size_newSet (script : Script) (capacity : Nat) :
    (script.newSet capacity).words.size = (NativeSet.ofCapacity capacity).words.size := by
  unfold Script.newSet
  generalize NativeSet.ofCapacity capacity = set
  induction script.prefill generalizing set with
  | nil => rfl
  | cons p prefill ih => rw [List.foldl_cons, ih, NativeSet.size_words_insert]

/-- A script that is used up is a system that complies. -/
theorem complied_scripted {α : Type} (d : Dialogue interface α) {script : Script}
    (hused : script.capacities = [] ∧ script.verdicts = []) :
    ∀ entry ∈ (d.run scripted script).entries, Complied entry := by
  refine complies_of_invariant (fun s => s.capacities = [] ∧ s.verdicts = [])
    (fun _ => trivial) ?_ d hused
  rintro request s ⟨hcapacities, hverdicts⟩
  cases request with
  | allocate capacity =>
      have hlent : scripted.answer (.allocate capacity) s = s.lend capacity := by
        simp only [scripted, Script.allocate, hcapacities]
      rw [hlent]
      refine ⟨⟨_, rfl, ?_⟩, hcapacities, hverdicts⟩
      simp only [NativeSet.capacity, size_newSet, NativeSet.ofCapacity, Words.size_zeros]
      omega
  | bind thread loan size =>
      have hjudged : scripted.answer (.bind thread loan size) s = (.ok (), s) := by
        simp only [scripted, Script.judge, hverdicts]
      rw [hjudged]
      exact ⟨rfl, hcapacities, hverdicts⟩
  | clear loan => exact ⟨rfl, hcapacities, hverdicts⟩
  | select p loan => exact ⟨rfl, hcapacities, hverdicts⟩
  | _ => exact ⟨trivial, hcapacities, hverdicts⟩

def boundIn : Entry interface → Option (Thread × NativeSet)
  | .call (.bind thread loan _) _ => some (thread, loan.set)
  | _ => none

variable {label : String} {thread : Thread} {e : Editor} {moves : List Move} {p : Nat}
  {processors : List Nat}

/-- The editor is for the thread, and its set selects what these moves select. -/
def Ready (thread : Thread) (e : Editor) (moves : List Move) : Prop :=
  e.thread = thread ∧ Selects e.loan.set moves

theorem openFor_yields (thread : Thread) :
    (Editor.openFor thread).Yields Complied fun opened entries =>
      (∃ e, opened = .ok e ∧ Ready thread e []) ∧ entries.filterMap boundIn = [] := by
  refine yields_ask fun lent hlent => ?_
  obtain ⟨loan, rfl, hlarge⟩ := hlent
  replace hlarge : processorLimit ≤ loan.set.capacity := hlarge
  simp only [if_neg (Nat.not_lt.mpr hlarge)]
  refine yields_ask fun set hcleared => yields_done ?_
  obtain rfl : set = loan.set.clear := hcleared
  exact ⟨⟨_, rfl, rfl, selects_clear hlarge⟩, rfl⟩

theorem select_yields (hp : p < 1024) (h : Ready thread e moves) :
    (e.select p).Yields Complied fun selected entries =>
      (∃ kept, selected = (.ok (), kept) ∧ Ready thread kept (moves ++ [.select p])) ∧
        entries.filterMap boundIn = [] := by
  have hbelow : ¬ processorLimit ≤ p := Nat.not_le.mpr hp
  rw [Editor.select, if_neg hbelow]
  refine yields_note (yields_ask fun set hset => yields_done ?_)
  obtain rfl : set = (e.loan.set.insert p).2 := hset
  exact ⟨⟨_, rfl, h.1, h.2.insert hp⟩, rfl⟩

theorem selectAll_yields (hprocessors : ∀ p ∈ processors, p < 1024) (h : Ready thread e moves) :
    ((backend label).selectAll processors e).Yields Complied fun selected entries =>
      (∃ kept, selected = (.ok (), kept) ∧
        Ready thread kept (moves ++ processors.map .select)) ∧
        entries.filterMap boundIn = [] := by
  induction processors generalizing e moves with
  | nil =>
      refine yields_done ⟨⟨e, rfl, ?_⟩, rfl⟩
      rwa [List.map_nil, List.append_nil]
  | cons p processors ih =>
      refine (select_yields (hprocessors p List.mem_cons_self) h).bind ?_
      rintro _ front ⟨⟨kept, rfl, hkept⟩, hfront⟩
      have hrest := ih (fun q hq => hprocessors q (List.mem_cons_of_mem p hq)) hkept
      refine hrest.imp ?_
      rintro _ entries ⟨⟨last, rfl, hlast⟩, hentries⟩
      rw [List.append_assoc] at hlast
      rw [List.filterMap_append, hfront, hentries]
      exact ⟨⟨last, rfl, hlast⟩, rfl⟩

theorem apply_yields (h : e.thread = thread) :
    e.apply.Yields Complied fun applied entries =>
      applied = (.ok (), e) ∧ entries.filterMap boundIn = [(thread, e.loan.set)] := by
  refine yields_ask fun size _ => yields_ask fun verdict hverdict => ?_
  obtain rfl : verdict = .ok () := hverdict
  refine yields_note (yields_done ⟨rfl, ?_⟩)
  rw [← h]
  rfl

/-- A thread is bound once, to a set that selects exactly what the mask selects. -/
def BindsOnce (thread : Thread) (mask : Mask) (entries : List (Entry interface)) : Prop :=
  ∃ set, entries.filterMap boundIn = [(thread, set)] ∧ ∀ p, set.contains p = mask.contains p

theorem applyAll_yields {mask : Mask} (h : Ready thread e []) :
    ((backend label).applyAll mask.members e).Yields Complied fun applied entries =>
      applied.1 = .ok () ∧ BindsOnce thread mask entries := by
  refine (selectAll_yields Mask.lt_of_mem_members h).bind ?_
  rintro _ selecting ⟨⟨kept, rfl, hthread, hset⟩, hselecting⟩
  refine (apply_yields hthread).imp ?_
  rintro _ applying ⟨rfl, happlying⟩
  refine ⟨rfl, kept.loan.set, ?_, fun p => ?_⟩
  · rw [List.filterMap_append, hselecting, happlying]
    rfl
  · rw [Bool.eq_iff_iff, hset.contains_iff p, List.nil_append, ← Mask.mem_members]
    simp only [List.mem_map, Move.select.injEq, exists_eq_right]
    exact and_iff_right_of_imp (Mask.lt_of_mem_members p)

theorem bindThreadTo_yields (label : String) (thread : Thread) {mask : Mask}
    (hmask : ∃ p, mask.contains p = true) :
    ((backend label).bindThreadTo thread mask).Yields Complied fun result entries =>
      result = .ok () ∧ BindsOnce thread mask entries := by
  rw [bindThreadTo_of_contains _ _ hmask]
  refine (openFor_yields thread).bind ?_
  rintro _ opening ⟨⟨e, rfl, he⟩, hopening⟩
  refine (applyAll_yields he).bind ?_
  rintro ⟨_, kept⟩ work ⟨rfl, set, hwork, hset⟩
  refine yields_ask fun _ _ => yields_done ⟨rfl, set, ?_, hset⟩
  rw [List.filterMap_append, List.filterMap_append, hopening, hwork]
  rfl

end Flat

/-! ## Reading positions back -/

namespace Group

/-- The processor at a position of a group: the `k`-th set position is the `k`-th processor. -/
def processorAt? (groups : List Group) (g i : Nat) : Option Nat := do
  let grp ← groups[g]?
  if grp.mask.getLsbD i then some (startOf groups g + Word.rank grp.mask i) else none

theorem Seated.processorAt?_eq {groups : List Group} {g p i : Nat} (h : Seated groups g p i) :
    processorAt? groups g i = some p := by
  obtain ⟨grp, hg, ⟨hle, -⟩, hset, hrank⟩ := h
  have hp : startOf groups g + Word.rank grp.mask i = p := by omega
  simp only [processorAt?, hg, Option.bind_eq_bind, Option.bind_some, if_pos hset, hp]

end Group

/-! ## The group backend -/

namespace Grouped

open ThreadAffinity.Group

variable {groups : List Group} {S : Nat → Prop} {plan : List GroupAffinity} {a : GroupAffinity}
  {p : Nat}

/-- The processor is read back from a position that a request binds to. -/
def BindsTo (groups : List Group) (a : GroupAffinity) (p : Nat) : Prop :=
  ∃ i, a.mask.getLsbD i = true ∧ processorAt? groups a.group i = some p

/-- A list of requests cuts a selection into one piece for each group that has a part of it.
Every position stands for a processor, each piece lies below those of the later requests, so
that no two of them have a processor in common, and together the pieces are the selection. -/
structure Splits (groups : List Group) (S : Nat → Prop) (plan : List GroupAffinity) : Prop where
  increasing : plan.Pairwise (·.group < ·.group)
  touches : ∀ g, (∃ a ∈ plan, a.group = g) ↔ ∃ p, S p ∧ Owns groups g p
  translated : ∀ a ∈ plan, ∀ i, a.mask.getLsbD i = true →
    ∃ p, processorAt? groups a.group i = some p
  below : plan.Pairwise fun a b => ∀ p q, BindsTo groups a p → BindsTo groups b q → p < q
  union : ∀ p, S p ↔ ∃ a ∈ plan, BindsTo groups a p

theorem bindsTo_iff (h : Holds groups a.group S a.mask) :
    BindsTo groups a p ↔ S p ∧ ∃ i, Seated groups a.group p i := by
  constructor
  · rintro ⟨i, hset, hp⟩
    obtain ⟨q, hq, hseat⟩ := (h i).mp hset
    obtain rfl : q = p := Option.some.inj (hseat.processorAt?_eq.symm.trans hp)
    exact ⟨hq, i, hseat⟩
  · rintro ⟨hp, i, hseat⟩
    exact ⟨i, (h i).mpr ⟨p, hp, hseat⟩, hseat.processorAt?_eq⟩

/-- With a seat for every selected processor, the plan cuts the selection. -/
theorem Plan.splits (hplan : Plan groups S plan) (hall : ∀ p, S p → Addressable groups p) :
    Splits groups S plan := by
  have htakes : ∀ g, Takes groups S g ↔ ∃ p, S p ∧ Owns groups g p := fun g =>
    takes_iff_of_addressable hall
  have hbinds : ∀ a ∈ plan, ∀ p, BindsTo groups a p → S p ∧ Owns groups a.group p := by
    intro a ha p hp
    obtain ⟨hS, i, hseat⟩ := (bindsTo_iff (hplan.holds a ha)).mp hp
    exact ⟨hS, hseat.owns⟩
  constructor
  case increasing => exact hplan.increasing
  case touches => exact fun g => (hplan.takes_iff g).trans (htakes g)
  case translated =>
    intro a ha i hset
    obtain ⟨p, -, hseat⟩ := (hplan.holds a ha i).mp hset
    exact ⟨p, hseat.processorAt?_eq⟩
  case below =>
    refine hplan.increasing.imp_of_mem fun ha hb hlt p q hp hq => ?_
    have hpown := (hbinds _ ha p hp).2
    have hqown := (hbinds _ hb q hq).2
    exact Nat.lt_of_lt_of_le (hpown.lt_startOf hlt) hqown.start_le
  case union =>
    intro p
    constructor
    · intro hp
      obtain ⟨g, i, hseat⟩ := addressable_iff.mp (hall p hp)
      obtain ⟨a, ha, rfl⟩ := (hplan.takes_iff g).mpr ((htakes g).mpr ⟨p, hp, hseat.owns⟩)
      exact ⟨a, ha, (bindsTo_iff (hplan.holds a ha)).mpr ⟨hp, i, hseat⟩⟩
    · rintro ⟨a, ha, hp⟩
      exact (hbinds a ha p hp).1

/-- The system did what it was asked: it bound the thread. -/
def Complied : Entry interface → Prop
  | .call (.bind _ _) verdict => verdict = .ok ()
  | _ => True

/-- A script without verdicts is a system that complies. -/
theorem complied_scripted {α : Type} (d : Dialogue interface α) {script : Script}
    (hused : script.verdicts = []) :
    ∀ entry ∈ (d.run scripted script).entries, Complied entry := by
  refine complies_of_invariant (fun s => s.verdicts = []) (fun _ => trivial) ?_ d hused
  intro request s hverdicts
  cases request with
  | query buffer length =>
      refine ⟨trivial, ?_⟩
      simp only [scripted, Script.query]
      split
      · exact hverdicts
      · exact hverdicts
  | bind thread affinity =>
      have hjudged : scripted.answer (.bind thread affinity) s = (.ok (), s) := by
        simp only [scripted, Script.judge, hverdicts]
      rw [hjudged]
      exact ⟨rfl, hverdicts⟩
  | currentThread => exact ⟨trivial, hverdicts⟩

/-- With a seat for every selected processor and no refusal, the whole plan is carried out. -/
theorem carriedOut_complied {thread : Thread} {entries : List (Entry interface)}
    {result : Except Error Unit} (h : CarriedOut groups S thread plan (exchangesOf entries) result)
    (hall : ∀ p, S p → Addressable groups p) (hcomplied : ∀ entry ∈ entries, Complied entry) :
    result = .ok () ∧ exchangesOf entries = plan.map (granted thread) := by
  generalize hexchanges : exchangesOf entries = exchanges at h
  cases h with
  | refused made left bad cause hplan =>
      have hmem : ⟨.bind thread bad, .error cause⟩ ∈ exchangesOf entries := by
        rw [hexchanges]
        exact List.mem_append_right _ (List.mem_singleton.mpr rfl)
      exact absurd (hcomplied _ (mem_of_mem_exchangesOf hmem)) nofun
  | stopped p hstray => exact absurd (hall p hstray.1) hstray.2.1
  | finished hnone => exact ⟨rfl, rfl⟩

theorem bindThreadTo_yields (few : groups.length < groupNumberLimit) (label : String)
    (thread : Thread) {mask : Mask} (hmask : ∃ p, mask.contains p = true)
    (hall : ∀ p, mask.contains p = true → Addressable groups p) :
    ((backend label groups).bindThreadTo thread mask).Yields Complied fun result entries =>
      result = .ok () ∧ ∃ plan, exchangesOf entries = plan.map (granted thread) ∧
        Splits groups (mask.contains · = true) plan := by
  intro σ system state hcomplied
  obtain ⟨plan, hplan⟩ := exists_plan groups (mask.contains · = true)
  have hstart : Progress (mask.contains · = true) plan (Editor.new groups thread) []
      mask.members [] plan :=
    progress_new thread few (fun _ => Mask.mem_members.symm) (Mask.members_pairwise mask)
  have hcarried := Progress.carriedOut label groups system hmask mask.members state hstart hplan
    (fun hne => absurd rfl hne)
  rw [bindThreadTo_of_contains _ _ hmask, withEditor_run] at hcomplied ⊢
  obtain ⟨hok, hexchanges⟩ := carriedOut_complied hcarried hall hcomplied
  exact ⟨hok, plan, hexchanges, hplan.splits hall⟩

end Grouped

/-! ## Both -/

/-- Over groups with a seat for each processor they count, a mask of processors that exist
means the same to both backends, as long as the systems do what they are asked. The flat
backend binds once, to a set that selects what the mask selects. The group backend makes a
list of requests that cut the mask group by group. -/
theorem backends_agree {bytes : List UInt8} {groups : List Group}
    (haccepted : Topology.decode bytes = .ok groups)
    (hseats : ∀ grp ∈ groups, grp.count.toNat ≤ Word.popCount grp.mask)
    (label : String) (thread : Thread) {mask : Mask} (hmask : ∃ p, mask.contains p = true)
    {σ τ : Type} (flat : System Flat.interface σ) (flatState : σ)
    (grouped : System Grouped.interface τ) (groupedState : τ)
    (hexist : ∀ p, mask.contains p = true →
      p < ((Grouped.backend label groups).processorCount.run grouped groupedState).value) :
    let whole := ((Flat.backend label).bindThreadTo thread mask).run flat flatState
    let split := ((Grouped.backend label groups).bindThreadTo thread mask).run grouped groupedState
    ((∀ entry ∈ whole.entries, Flat.Complied entry) →
      whole.value = .ok () ∧ Flat.BindsOnce thread mask whole.entries) ∧
    ((∀ entry ∈ split.entries, Grouped.Complied entry) →
      split.value = .ok () ∧ ∃ plan,
        exchangesOf split.entries = plan.map (Grouped.granted thread) ∧
        Grouped.Splits groups (mask.contains · = true) plan) := by
  have few : groups.length < Grouped.groupNumberLimit := (Topology.length_of_decode haccepted).2
  have hall : ∀ p, mask.contains p = true → Group.Addressable groups p := fun p hp =>
    Group.addressable_of_lt_total hseats (hexist p hp)
  exact ⟨Flat.bindThreadTo_yields label thread hmask σ flat flatState,
    Grouped.bindThreadTo_yields few label thread hmask hall τ grouped groupedState⟩

/-- Groups with gaps between their positions, one of them without processors, and a flat
system whose sets are not empty when they are lent. -/
theorem backends_agree_across_gaps :
    let groups : List Group := [⟨2, 0xa⟩, ⟨0, 0⟩, ⟨3, 0x8000000000000011⟩]
    let flat : Flat.Script := ⟨5, .caller, [], [1, 900], none, [], 0⟩
    let grouped : Grouped.Script := ⟨[], .caller, (.ok (), 0), (.ok (), 0), true, []⟩
    let whole := ((Flat.backend "both").bindThreadTo (.handle 7) (Mask.ofWord 0x16)).run
      Flat.scripted flat
    let split := ((Grouped.backend "both" groups).bindThreadTo (.handle 7) (Mask.ofWord 0x16)).run
      Grouped.scripted grouped
    Topology.decode (Topology.groupRecord groups) = .ok groups ∧
      (∀ grp ∈ groups, grp.count.toNat ≤ Word.popCount grp.mask) ∧
      (whole.value = .ok () ∧ Flat.BindsOnce (.handle 7) (Mask.ofWord 0x16) whole.entries) ∧
      split.value = .ok () ∧ ∃ plan,
        exchangesOf split.entries = plan.map (Grouped.granted (.handle 7)) ∧
        Grouped.Splits groups ((Mask.ofWord 0x16).contains · = true) plan := by
  intro groups flat grouped whole split
  have haccepted : Topology.decode (Topology.groupRecord groups) = .ok groups :=
    Topology.decode_groupRecord (by decide) (by decide)
  have hseats : ∀ grp ∈ groups, grp.count.toNat ≤ Word.popCount grp.mask := by decide
  have hmask : ∃ p, (Mask.ofWord 0x16).contains p = true := ⟨1, by decide⟩
  have hexist : ∀ p, (Mask.ofWord 0x16).contains p = true → p < 5 := by
    intro p hp
    obtain ⟨hlt, hset⟩ := Finset.mem_filter.mp ((Mask.denotes_ofWord 0x16 p).mp hp)
    have hbits : ∀ q < 64, (0x16 : Word).getLsbD q = true → q < 5 := by decide
    exact hbits p (Finset.mem_range.mp hlt) hset
  obtain ⟨hwhole, hsplit⟩ := backends_agree haccepted hseats "both" (.handle 7) hmask
    Flat.scripted flat Grouped.scripted grouped hexist
  exact ⟨haccepted, hseats, hwhole (Flat.complied_scripted _ ⟨rfl, rfl⟩),
    hsplit (Grouped.complied_scripted _ rfl)⟩

end ThreadAffinity
