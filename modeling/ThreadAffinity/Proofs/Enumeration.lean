import ThreadAffinity.Bind
import ThreadAffinity.Proofs.WordRank

/-!
# Enumerating a bit set

`Words.members` looks at a word only as often as the word has set bits, and skips
words that are zero. What comes out is still what a plain scan over all positions
finds: `members_eq_filter`. For masks this gives the order and the membership that
everything built on an enumeration relies on.
-/

namespace ThreadAffinity

namespace Words

theorem mem_members {words : Array Word} {p : Nat} :
    p ∈ members words ↔ test words p = true := by
  rw [members, List.mem_flatMap]
  constructor
  · rintro ⟨⟨word, n⟩, hn, hp⟩
    obtain ⟨i, hi, rfl⟩ := List.mem_map.mp hp
    have hset := Word.mem_bitsUp.mp hi
    have hlt : i < 64 := BitVec.lt_of_getLsbD hset
    have hword : words[n]? = some word := by
      simpa using List.mem_zipIdx_iff_getElem?.mp hn
    have hdiv : (64 * n + i) / 64 = n := by omega
    have hmod : (64 * n + i) % 64 = i := by omega
    simpa [test, hdiv, hmod, hword] using hset
  · intro hp
    simp only [test] at hp
    split at hp
    · rename_i word hword
      refine ⟨(word, p / 64), List.mem_zipIdx_iff_getElem?.mpr (by simpa using hword), ?_⟩
      exact List.mem_map.mpr ⟨p % 64, Word.mem_bitsUp.mpr hp, by omega⟩
    · cases hp

theorem members_pairwise (words : Array Word) : (members words).Pairwise (· < ·) := by
  rw [members, List.pairwise_flatMap]
  constructor
  · rintro ⟨word, n⟩ -
    rw [List.pairwise_map]
    exact (Word.bitsUp_pairwise word).imp fun h => by omega
  · -- all members of a word lie below those of the words behind it
    have hidx : (words.toList.zipIdx.map Prod.snd).Pairwise (· < ·) := by
      rw [List.zipIdx_map_snd]
      exact List.pairwise_lt_range'
    refine (List.pairwise_map.mp hidx).imp ?_
    rintro ⟨word, m⟩ ⟨word', n⟩ (hmn : m < n) p hp q hq
    obtain ⟨i, hi, rfl⟩ := List.mem_map.mp hp
    obtain ⟨j, -, rfl⟩ := List.mem_map.mp hq
    have hlt : i < 64 := BitVec.lt_of_getLsbD (Word.mem_bitsUp.mp hi)
    omega

theorem members_eq_filter (words : Array Word) :
    members words = (List.range (room words)).filter (test words) := by
  refine (members_pairwise words).eq_of_mem_iff (List.pairwise_lt_range.filter _) fun p => ?_
  rw [mem_members, List.mem_filter, List.mem_range]
  exact ⟨fun h => ⟨lt_room_of_test h, h⟩, fun h => h.2⟩

theorem isEmpty_iff {words : Array Word} : isEmpty words = true ↔ ∀ p, test words p = false := by
  rw [isEmpty, List.all_eq_true]
  constructor
  · intro h p
    simp only [test]
    split
    · rename_i word hword
      have hmem : word ∈ words.toList := by
        rw [Array.mem_toList_iff]
        exact Array.mem_of_getElem? hword
      rw [beq_iff_eq.mp (h word hmem)]
      simp
    · rfl
  · intro h word hmem
    obtain ⟨n, hn⟩ := List.getElem?_of_mem hmem
    rw [Array.getElem?_toList] at hn
    rw [beq_iff_eq]
    apply BitVec.eq_of_getLsbD_eq
    intro i hi
    have hdiv : (64 * n + i) / 64 = n := by omega
    have hmod : (64 * n + i) % 64 = i := by omega
    simpa [test, hdiv, hmod, hn] using h (64 * n + i)

end Words

namespace Mask

theorem mem_members {mask : Mask} {p : Nat} : p ∈ mask.members ↔ mask.contains p = true := by
  rw [members, Words.mem_members, contains_eq_test]

theorem lt_of_mem_members {mask : Mask} : ∀ p ∈ mask.members, p < 1024 :=
  fun _ hp => lt_of_contains (mem_members.mp hp)

theorem members_pairwise (mask : Mask) : mask.members.Pairwise (· < ·) :=
  Words.members_pairwise mask.words

theorem isEmpty_iff {mask : Mask} : mask.isEmpty = true ↔ ∀ p, mask.contains p = false := by
  rw [isEmpty, Words.isEmpty_iff]
  simp only [contains_eq_test]

theorem isEmpty_eq_false {mask : Mask} (h : ∃ p, mask.contains p = true) :
    mask.isEmpty = false := by
  obtain ⟨p, hp⟩ := h
  rw [Bool.eq_false_iff]
  intro hempty
  rw [isEmpty_iff.mp hempty p] at hp
  cases hp

end Mask

/-- A mask that selects anything is handed over, member by member. -/
theorem Backend.bindThreadTo_of_contains {I : Interface} {E : Type} (backend : Backend I E)
    (thread : Thread) {mask : Mask} (h : ∃ p, mask.contains p = true) :
    backend.bindThreadTo thread mask =
      backend.withEditor thread (backend.applyAll mask.members) := by
  rw [bindThreadTo, Mask.isEmpty_eq_false h]
  exact if_neg Bool.false_ne_true

end ThreadAffinity
