import ThreadAffinity.Proofs.CpuList.RoundTrip
import ThreadAffinity.Proofs.Enumeration
import ThreadAffinity.Proofs.Mask.FiniteSet

/-!
# Masks as text

A mask is written as the processor list of its members, and reading that list gives the
mask back: `ofList_display`. Reading goes by what a list names, so it is enough that the
written list names exactly the selected processors (`parse_display`); a list that does
makes this mask and no other (`ofList_of_parse`).
-/

namespace ThreadAffinity

namespace Mask

open CpuList

variable {mask : Mask} {text : String} {items : List Item}

/-- A list that names exactly the processors of a mask is read as that mask. -/
theorem ofList_of_parse (hparse : parse text = .ok items)
    (hnames : ∀ p, names items p = true ↔ mask.contains p = true) : ofList text = .ok mask := by
  have hnext : nextFrom? items processorLimit = none :=
    nextFrom?_eq_none fun p hp => lt_of_contains ((hnames p).mp hp)
  simp only [ofList, hparse, hnext]
  refine ofProcessors_eq_ok fun p => ?_
  rw [List.mem_filter, List.mem_range, hnames p]
  exact and_iff_right_of_imp lt_of_contains

theorem lt_numberLimit_of_mem_members {p : Nat} (h : p ∈ mask.members) : p < numberLimit :=
  Nat.lt_trans (lt_of_contains (mem_members.mp h)) (by decide)

/-- The text of a mask is a processor list that names the selected processors. -/
theorem parse_display (mask : Mask) :
    ∃ items, parse mask.display = .ok items ∧
      ∀ p, names items p = true ↔ mask.contains p = true := by
  obtain ⟨items, hparse, hnames⟩ := parse_print fun p hp => lt_numberLimit_of_mem_members hp
  exact ⟨items, hparse, fun p => (hnames p).trans mem_members⟩

theorem ofList_display (mask : Mask) : ofList mask.display = .ok mask := by
  obtain ⟨items, hparse, hnames⟩ := parse_display mask
  exact ofList_of_parse hparse hnames

/-- The text of a mask names its processors and is read as that mask again. So no two masks
are written alike, and to write down what was read and to read it once more changes
nothing, whatever text it was read from. -/
theorem display_faithful (mask other : Mask) (text : String) :
    (∃ items, parse mask.display = .ok items ∧ ∀ p, names items p = mask.contains p) ∧
      ofList mask.display = .ok mask ∧
      (mask.display = other.display ↔ mask = other) ∧
      (ofList text).bind (fun made => ofList made.display) = ofList text := by
  refine ⟨?_, ofList_display mask, ⟨fun h => ?_, congrArg display⟩, ?_⟩
  · obtain ⟨items, hparse, hnames⟩ := parse_display mask
    exact ⟨items, hparse, fun p => Bool.eq_iff_iff.mpr (hnames p)⟩
  · have hread : (.ok mask : Except Error Mask) = .ok other := by
      rw [← ofList_display mask, h, ofList_display other]
    exact Except.ok.inj hread
  · cases ofList text with
    | error error => rfl
    | ok made =>
        rw [Except.bind]
        exact ofList_display made

end Mask

end ThreadAffinity
