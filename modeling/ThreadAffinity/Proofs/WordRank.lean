import Mathlib.Data.List.Sort
import ThreadAffinity.Word

/-!
# The k-th set bit of a word

The position of the k-th set bit can be found in two ways: as entry `k` of the
ascending list of set positions, and as the set position that has exactly `k` set
positions below it. The second way (`rank`) does not mention lists and is the one
that statements are made in; `getElem?_positions` says that both agree.

The walk that takes off the lowest set bit again and again (`bitsUp`) comes by the
same positions in the same order as the plain scan: `bitsUp_eq_positions`.
-/

namespace ThreadAffinity

namespace Word

/-! ## Ranks -/

/-- How many set positions lie below position `i`. -/
def rank (w : Word) (i : Nat) : Nat := (List.range i).countP w.getLsbD

theorem getElem?_filter_range {f : Nat → Bool} {n k i : Nat} :
    ((List.range n).filter f)[k]? = some i ↔
      i < n ∧ f i = true ∧ (List.range i).countP f = k := by
  induction n with
  | zero => simp
  | succ n ih =>
    have hlen : ((List.range n).filter f).length = (List.range n).countP f :=
      List.countP_eq_length_filter.symm
    rw [List.range_succ, List.filter_append, List.getElem?_append, hlen]
    by_cases hk : k < (List.range n).countP f
    · rw [if_pos hk, ih]
      constructor
      · rintro ⟨hi, hf, hc⟩
        exact ⟨Nat.lt_succ_of_lt hi, hf, hc⟩
      · rintro ⟨hi, hf, hc⟩
        rcases Nat.lt_succ_iff_lt_or_eq.mp hi with hlt | rfl
        · exact ⟨hlt, hf, hc⟩
        · omega
    · rw [if_neg hk]
      -- what is left of the list is `n` itself, if `n` passes the test at all
      constructor
      · intro h
        cases hf : f n with
        | false => simp [hf] at h
        | true =>
          rw [List.filter_cons_of_pos (by exact hf), List.filter_nil] at h
          obtain ⟨hlt, heq⟩ := List.getElem?_eq_some_iff.mp h
          simp only [List.length_singleton] at hlt
          simp only [List.getElem_singleton] at heq
          subst heq
          exact ⟨Nat.lt_succ_self n, hf, by omega⟩
      · rintro ⟨hi, hf, hc⟩
        have hle : (List.range i).countP f ≤ k := Nat.le_of_eq hc
        rcases Nat.lt_succ_iff_lt_or_eq.mp hi with hlt | rfl
        · have hmono : (List.range (i + 1)).countP f ≤ (List.range n).countP f :=
            (List.range_sublist.mpr (by omega)).countP_le
          rw [List.range_succ, List.countP_append, List.countP_singleton, hf] at hmono
          simp only [if_true] at hmono
          omega
        · simp [hf, hc]

theorem getElem?_positions {w : Word} {k i : Nat} :
    (positions w)[k]? = some i ↔ w.getLsbD i = true ∧ rank w i = k := by
  rw [positions, getElem?_filter_range, rank]
  constructor
  · rintro ⟨-, hset, hrank⟩
    exact ⟨hset, hrank⟩
  · rintro ⟨hset, hrank⟩
    exact ⟨BitVec.lt_of_getLsbD hset, hset, hrank⟩

theorem cpopNatRec_eq_countP (w : Word) (n : Nat) :
    w.cpopNatRec n 0 = (List.range n).countP w.getLsbD := by
  induction n with
  | zero => rfl
  | succ n ih =>
    rw [BitVec.cpopNatRec_succ, BitVec.cpopNatRec_add, ih, List.range_succ, List.countP_append,
      List.countP_singleton]
    cases w.getLsbD n <;> rfl

theorem length_positions (w : Word) : (positions w).length = popCount w := by
  rw [popCount, BitVec.toNat_cpop, cpopNatRec_eq_countP, positions, List.countP_eq_length_filter]

/-- There is a set position of every rank below the number of set bits, and of no other. -/
theorem exists_rank_iff {w : Word} {k : Nat} :
    (∃ i, w.getLsbD i = true ∧ rank w i = k) ↔ k < popCount w := by
  rw [← length_positions]
  constructor
  · rintro ⟨i, hi⟩
    exact (List.getElem?_eq_some_iff.mp (getElem?_positions.mpr hi)).1
  · intro hk
    exact ⟨_, getElem?_positions.mp (List.getElem?_eq_getElem hk)⟩

theorem rank_lt_rank {w : Word} {i j : Nat} (hi : w.getLsbD i = true) (hij : i < j) :
    rank w i < rank w j := by
  have hmono : (List.range (i + 1)).countP w.getLsbD ≤ (List.range j).countP w.getLsbD :=
    (List.range_sublist.mpr (by omega)).countP_le
  rw [List.range_succ, List.countP_append, List.countP_singleton, hi] at hmono
  simp only [if_true] at hmono
  simp only [rank]
  omega

theorem eq_of_rank_eq {w : Word} {i j : Nat} (hi : w.getLsbD i = true)
    (hj : w.getLsbD j = true) (h : rank w i = rank w j) : i = j := by
  rcases Nat.lt_trichotomy i j with hlt | heq | hlt
  · have := rank_lt_rank hi hlt
    omega
  · exact heq
  · have := rank_lt_rank hj hlt
    omega

/-! ## The walk over the lowest set bits -/

theorem getLsbD_and_sub_one (w : Word) (i : Nat) :
    (w &&& (w - 1)).getLsbD i = (w.getLsbD i && decide (∃ j, j < i ∧ w.getLsbD j = true)) := by
  have hsub : w - 1 = ~~~(-w) := (BitVec.not_neg w).symm
  rw [hsub, BitVec.getLsbD_and, BitVec.getLsbD_not, BitVec.getLsbD_neg]
  by_cases hi : i < 64
  · cases w.getLsbD i <;> simp [hi]
  · simp [BitVec.getLsbD_of_ge w i (by omega)]

theorem getLsbD_lowest {w : Word} (h : w ≠ 0) : w.getLsbD (lowest w) = true := by
  rw [lowest_eq_ctz h]
  exact BitVec.getLsbD_true_ctz_of_ne_zero h

theorem lowest_le {w : Word} {i : Nat} (hi : w.getLsbD i = true) : lowest w ≤ i := by
  have hne : w ≠ 0 := by
    rintro rfl
    simp at hi
  rw [lowest_eq_ctz hne]
  by_contra hlt
  rw [BitVec.getLsbD_false_of_lt_ctz (by omega)] at hi
  cases hi

theorem mem_bitsUp {w : Word} {i : Nat} : i ∈ bitsUp w ↔ w.getLsbD i = true := by
  induction w using bitsUp.induct with
  | case1 => rw [bitsUp_zero]; simp
  | case2 w h ih =>
    rw [bitsUp, dif_neg h, List.mem_cons, ih, getLsbD_and_sub_one]
    simp only [Bool.and_eq_true, decide_eq_true_eq]
    constructor
    · rintro (rfl | ⟨hi, -⟩)
      · exact getLsbD_lowest h
      · exact hi
    · intro hi
      rcases Nat.lt_or_eq_of_le (lowest_le hi) with hlt | heq
      · exact Or.inr ⟨hi, lowest w, hlt, getLsbD_lowest h⟩
      · exact Or.inl heq.symm

theorem bitsUp_pairwise (w : Word) : (bitsUp w).Pairwise (· < ·) := by
  induction w using bitsUp.induct with
  | case1 => rw [bitsUp_zero]; exact List.Pairwise.nil
  | case2 w h ih =>
    rw [bitsUp, dif_neg h]
    refine List.pairwise_cons.mpr ⟨fun i hi => ?_, ih⟩
    rw [mem_bitsUp, getLsbD_and_sub_one] at hi
    simp only [Bool.and_eq_true, decide_eq_true_eq] at hi
    obtain ⟨-, j, hj, hset⟩ := hi
    exact Nat.lt_of_le_of_lt (lowest_le hset) hj

theorem bitsUp_eq_positions (w : Word) : bitsUp w = positions w :=
  (bitsUp_pairwise w).eq_of_mem_iff (positions_pairwise w) fun i => by
    rw [mem_bitsUp, mem_positions]

end Word

end ThreadAffinity
