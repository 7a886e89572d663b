import ThreadAffinity.Proofs.Enumeration
import ThreadAffinity.Proofs.Mask.FiniteSet

/-!
# The members of a mask

The members of a mask are found word by word, the lowest bit of a word first, and a word that is
zero may as well be left out beforehand (`Words.members_eq_skipping`). What comes out is what a
scan over all processor numbers finds. So the two shortcuts around an enumeration, counting bits
and looking for a word that is not zero, say how long it is and whether there is anything in it,
and the members of a mask make this mask again.
-/

namespace ThreadAffinity

theorem Word.bitsUp_of_ne_zero {word : Word} (h : word ≠ 0) :
    bitsUp word = word.ctz.toNat :: bitsUp (word &&& (word - 1)) := by
  rw [bitsUp, dif_neg h, lowest_eq_ctz h]

namespace Words

theorem members_eq_skipping (words : Array Word) :
    members words = (words.toList.zipIdx.filter (·.1 != 0)).flatMap
      fun (word, n) => (Word.bitsUp word).map (64 * n + ·) := by
  rw [members]
  induction words.toList.zipIdx with
  | nil => rfl
  | cons row rows ih =>
      obtain ⟨word, n⟩ := row
      by_cases hzero : word = 0
      · subst hzero
        rw [List.filter_cons_of_neg (by simp), List.flatMap_cons, ih]
        simp only [Word.bitsUp_zero, List.map_nil, List.nil_append]
      · have hkept : (word != 0) = true := bne_iff_ne.mpr hzero
        rw [List.filter_cons_of_pos (by exact hkept), List.flatMap_cons, List.flatMap_cons, ih]

/-- Each word has as many members as it has set bits, whatever its number. -/
theorem length_flatMap_zipIdx (words : List Word) (first : Nat) :
    ((words.zipIdx first).flatMap fun (word, n) => (Word.bitsUp word).map (64 * n + ·)).length =
      words.foldr (fun word rest => word.popCount + rest) 0 := by
  induction words generalizing first with
  | nil => rfl
  | cons word words ih =>
      rw [List.zipIdx_cons, List.flatMap_cons, List.length_append, ih, List.length_map,
        Word.bitsUp_eq_positions, Word.length_positions, List.foldr_cons]

theorem length_members (words : Array Word) : (members words).length = count words :=
  length_flatMap_zipIdx words.toList 0

theorem isEmpty_iff_members {words : Array Word} : isEmpty words = true ↔ members words = [] := by
  rw [isEmpty_iff, List.eq_nil_iff_forall_not_mem]
  exact forall_congr' fun p => by rw [mem_members, Bool.not_eq_true]

end Words

namespace Mask

theorem members_eq_scan (mask : Mask) :
    mask.members = (List.range processorLimit).filter mask.contains := by
  rw [members, Words.members_eq_filter, room_words]
  exact List.filter_congr fun p _ => (contains_eq_test mask p).symm

theorem ofProcessors_members (mask : Mask) : ofProcessors mask.members = .ok mask :=
  ofProcessors_eq_ok fun _ => mem_members

/-- Going through the words that are not zero, and through each of them by taking off its lowest
bit, finds what a plain scan finds: the selected processors below the limit and no others, in
increasing order and therefore each of them once. The size and the emptiness of a mask are those
of the enumeration, and selecting what is enumerated makes the same mask. -/
theorem members_exactly (mask : Mask) :
    mask.members = (mask.words.toList.zipIdx.filter (·.1 != 0)).flatMap
        (fun (word, n) => (Word.bitsUp word).map (64 * n + ·)) ∧
      (∀ word : Word, Word.bitsUp word =
        if word = 0 then [] else word.ctz.toNat :: Word.bitsUp (word &&& (word - 1))) ∧
      mask.members = (List.range 1024).filter mask.contains ∧
      (∀ p, p ∈ mask.members ↔ p < 1024 ∧ mask.contains p = true) ∧
      mask.members.Pairwise (· < ·) ∧
      mask.size = mask.members.length ∧
      (mask.isEmpty = true ↔ mask.members = []) ∧
      ofProcessors mask.members = .ok mask := by
  refine ⟨Words.members_eq_skipping mask.words, fun word => ?_, members_eq_scan mask,
    fun p => ?_, members_pairwise mask, (Words.length_members mask.words).symm,
    Words.isEmpty_iff_members, ofProcessors_members mask⟩
  · split
    · rename_i hzero
      rw [hzero, Word.bitsUp_zero]
    · exact Word.bitsUp_of_ne_zero (by assumption)
  · rw [mem_members]
    exact (and_iff_right_of_imp lt_of_contains).symm

end Mask

end ThreadAffinity
