import ThreadAffinity.Proofs.CpuList.Grammar
import ThreadAffinity.Proofs.Mask.FiniteSet

/-!
# Reading a mask

A mask is read from a text without counting out what the text lists, which may be four thousand
million numbers. It comes to the same as counting them out and selecting one after the other
(`ofList_eq_ofProcessors`). So what can become of a text is told by the grammar of processor
lists: it is not of the grammar, it lists a processor beyond the limit, the first of which is
reported, or it is the mask of the processors that it lists.
-/

namespace ThreadAffinity

namespace Mask

open CpuList

variable {mask : Mask} {text other : String} {items : List Item} {processors : List Nat} {p : Nat}

/-! ## Selecting one after the other -/

theorem ofProcessors_of_find? (h : processors.find? (processorLimit ≤ ·) = some p) :
    ofProcessors processors = .error (.outOfRange p 1023) := by
  have hagree := agree_ofProcessors processors
  rw [finsetOf, h] at hagree
  generalize ofProcessors processors = built at hagree ⊢
  cases hagree
  rfl

theorem exists_ofProcessors (h : processors.find? (processorLimit ≤ ·) = none) :
    ∃ mask, ofProcessors processors = .ok mask ∧ ∀ p, mask.contains p = true ↔ p ∈ processors := by
  have hagree := agree_ofProcessors processors
  rw [finsetOf, h] at hagree
  generalize ofProcessors processors = built at hagree ⊢
  cases hagree with
  | made hdenotes => exact ⟨_, rfl, fun p => by rw [hdenotes p, List.mem_toFinset]⟩

theorem ofProcessors_eq_error_iff {error : Error} : ofProcessors processors = .error error ↔
    ∃ p, processors.find? (processorLimit ≤ ·) = some p ∧ error = .outOfRange p 1023 := by
  cases hfind : processors.find? (processorLimit ≤ ·) with
  | none =>
      obtain ⟨mask, hmask, -⟩ := exists_ofProcessors hfind
      rw [hmask]
      exact ⟨nofun, nofun⟩
  | some p =>
      rw [ofProcessors_of_find? hfind]
      constructor
      · intro h
        exact ⟨p, rfl, (Except.error.inj h).symm⟩
      · rintro ⟨_, ⟨⟩, rfl⟩
        rfl

theorem ofProcessors_eq_ok_iff :
    ofProcessors processors = .ok mask ↔ ∀ p, mask.contains p = true ↔ p ∈ processors := by
  refine ⟨fun h => ?_, fun h => ofProcessors_eq_ok fun p => (h p).symm⟩
  cases hfind : processors.find? (processorLimit ≤ ·) with
  | none =>
      obtain ⟨made, hmade, hcontains⟩ := exists_ofProcessors hfind
      obtain rfl := Except.ok.inj (hmade.symm.trans h)
      exact hcontains
  | some p =>
      rw [ofProcessors_of_find? hfind] at h
      cases h

/-! ## Reading -/

/-- Numbers that stay below the limit are all found by looking there. -/
theorem filter_names_eq_numbers (h : nextFrom? items processorLimit = none) :
    (List.range processorLimit).filter (names items) = numbers items := by
  refine (List.pairwise_lt_range.filter _).eq_of_mem_iff (numbers_pairwise items) fun p => ?_
  rw [List.mem_filter, List.mem_range, mem_numbers]
  refine and_iff_right_of_imp fun hp => Nat.lt_of_not_le fun hle => ?_
  rw [← find?_numbers, List.find?_eq_none] at h
  exact h p (mem_numbers.mpr hp) (decide_eq_true hle)

theorem ofList_eq_ofProcessors (h : parse text = .ok items) :
    ofList text = ofProcessors (numbers items) := by
  simp only [ofList, h]
  cases hnext : nextFrom? items processorLimit with
  | none => simp only [filter_names_eq_numbers hnext]
  | some p =>
      rw [← find?_numbers] at hnext
      exact (ofProcessors_of_find? hnext).symm

theorem ofList_eq_invalidList_iff {fault : Fault} :
    ofList text = .error (.invalidList fault) ↔ parse text = .error fault := by
  cases hparse : parse text with
  | error why => simp [ofList, hparse]
  | ok items =>
      rw [ofList_eq_ofProcessors hparse, ofProcessors_eq_error_iff]
      constructor
      · rintro ⟨p, -, h⟩
        cases h
      · intro h
        cases h

/-- What becomes of a processor list, given the numbers that it comes to. -/
structure ReadAs (text : String) (listed : List Nat) : Prop where
  increasing : listed.Pairwise (· < ·)
  mem_iff : ∀ p, p ∈ listed ↔ Listed text p
  one_by_one : ofList text = ofProcessors listed
  accepted_iff : (∃ mask, ofList text = .ok mask) ↔ ∀ p, Listed text p → p < 1024
  contains_iff : ∀ mask, ofList text = .ok mask → ∀ p, mask.contains p = true ↔ Listed text p
  refused_iff : ∀ error, ofList text = .error error ↔
    ∃ p, listed.find? (1024 ≤ ·) = some p ∧ error = .outOfRange p 1023

theorem readAs_numbers (h : parse text = .ok items) : ReadAs text (numbers items) := by
  have hread := ofList_eq_ofProcessors h
  have hcontains : ∀ mask, ofList text = .ok mask →
      ∀ p, mask.contains p = true ↔ Listed text p := by
    intro mask hmask p
    rw [hread, ofProcessors_eq_ok_iff] at hmask
    rw [hmask p, mem_numbers_of_parse h]
  constructor
  case increasing => exact numbers_pairwise items
  case mem_iff => exact fun p => mem_numbers_of_parse h
  case one_by_one => exact hread
  case contains_iff => exact hcontains
  case refused_iff =>
    intro error
    rw [hread]
    exact ofProcessors_eq_error_iff
  case accepted_iff =>
    constructor
    · rintro ⟨mask, hmask⟩ p hp
      exact lt_of_contains ((hcontains mask hmask p).mpr hp)
    · intro hbelow
      have hfind : (numbers items).find? (processorLimit ≤ ·) = none := by
        rw [List.find?_eq_none]
        intro p hp hle
        have hlt := hbelow p ((mem_numbers_of_parse h).mp hp)
        exact absurd (of_decide_eq_true hle) (Nat.not_le.mpr hlt)
      obtain ⟨mask, hmask, -⟩ := exists_ofProcessors hfind
      exact ⟨mask, hread.trans hmask⟩

/-- Lists of the same processors are read alike, however they are written. -/
theorem ofList_congr (htext : WellFormed text) (hother : WellFormed other)
    (h : ∀ p, Listed text p ↔ Listed other p) : ofList text = ofList other := by
  obtain ⟨items, hitems⟩ := exists_parse_iff.mpr htext
  obtain ⟨others, hothers⟩ := exists_parse_iff.mpr hother
  have hnumbers : numbers items = numbers others := by
    refine (numbers_pairwise items).eq_of_mem_iff (numbers_pairwise others) fun p => ?_
    rw [mem_numbers_of_parse hitems, mem_numbers_of_parse hothers, h p]
  rw [ofList_eq_ofProcessors hitems, ofList_eq_ofProcessors hothers, hnumbers]

/-- A text is refused as no processor list exactly if it is none, with the fault that was found.
A processor list is the mask of the processors that it lists if all of them are below the limit,
and is otherwise refused for the first of them, in increasing order, that is not. How a list is
written makes no difference. -/
theorem ofList_exactly (text other : String) :
    (∀ fault, ofList text = .error (.invalidList fault) ↔ parse text = .error fault) ∧
      ((∃ items, parse text = .ok items) ↔ WellFormed text) ∧
      (∀ items, parse text = .ok items → ReadAs text (numbers items)) ∧
      (WellFormed text → WellFormed other → (∀ p, Listed text p ↔ Listed other p) →
        ofList text = ofList other) :=
  ⟨fun _ => ofList_eq_invalidList_iff, exists_parse_iff, fun _ => readAs_numbers, ofList_congr⟩

/-- Parts that overlap and stand in no order, and processors beyond the limit in three of them. -/
theorem ofList_exactly_overlapping :
    let text := "2000,5-7,1030-1040:5,+6,,0-4294967295:1073741824"
    let items : List Item := [.single 2000, ⟨5, 7, 1, by decide, by decide⟩,
      ⟨1030, 1040, 5, by decide, by decide⟩, .single 6,
      ⟨0, 4294967295, 1073741824, by decide, by decide⟩]
    parse text = .ok items ∧ ReadAs text (numbers items) ∧
      ofList text = .error (.outOfRange 1030 1023) := by
  intro text items
  have hparse : parse text = .ok items := by
    unfold text items
    decide
  have hread := (ofList_exactly text text).2.2.1 items hparse
  have hnext : nextFrom? items 1024 = some 1030 := by
    unfold items
    decide
  rw [← find?_numbers] at hnext
  exact ⟨hparse, hread, (hread.refused_iff _).mpr ⟨1030, hnext, rfl⟩⟩

end Mask

end ThreadAffinity
