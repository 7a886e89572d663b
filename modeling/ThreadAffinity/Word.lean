/-!
# Machine words as sets of bit positions

Every selection of processors in this library ends up in 64-bit words. A word
is read in three ways: bit by bit (`getLsbD`), as the ascending list of its set
positions found by a plain scan (`Word.positions`), and as the list obtained by
taking off the lowest set bit again and again (`Word.bitsUp`), which costs one
step per set bit instead of one per position.
-/

namespace ThreadAffinity

/-- Sixty-four bits; bit `i` is the bit of weight `2 ^ i`. -/
abbrev Word := BitVec 64

namespace Word

/-! ## Single bits -/

/-- The word whose only set bit is `i`; no bit at all if `i` is 64 or more. -/
def bit (i : Nat) : Word := BitVec.twoPow 64 i

theorem getLsbD_bit (i j : Nat) :
    (bit i).getLsbD j = (decide (i < 64) && decide (i = j)) :=
  BitVec.getLsbD_twoPow i j

theorem getLsbD_or_bit {i : Nat} (hi : i < 64) (w : Word) (j : Nat) :
    (w ||| bit i).getLsbD j = (w.getLsbD j || decide (i = j)) := by
  simp [getLsbD_bit, hi]

theorem getLsbD_and_not_bit (w : Word) (i j : Nat) :
    (w &&& ~~~ bit i).getLsbD j = (w.getLsbD j && decide (i ≠ j)) := by
  rw [BitVec.getLsbD_and, BitVec.getLsbD_not, getLsbD_bit]
  by_cases hj : j < 64
  · by_cases h : i = j
    · subst h; simp [hj]
    · simp [h, hj]
  · rw [BitVec.getLsbD_of_ge w j (by omega)]; rfl

/-! ## Set positions, by scanning -/

/-- The set positions in increasing order, found by looking at every bit. -/
def positions (w : Word) : List Nat := (List.range 64).filter w.getLsbD

@[simp] theorem mem_positions {w : Word} {i : Nat} :
    i ∈ positions w ↔ w.getLsbD i = true := by
  simp only [positions, List.mem_filter, List.mem_range, and_iff_right_iff_imp]
  exact fun h => BitVec.lt_of_getLsbD h

theorem positions_pairwise (w : Word) : (positions w).Pairwise (· < ·) :=
  List.pairwise_lt_range.filter _

def popCount (w : Word) : Nat := w.cpop.toNat

/-! ## Set positions, lowest bit first -/

/-- The lowest set position of a word: negation keeps the lowest set bit and flips
every bit above it, so that bit is all a word has in common with its negation. -/
def lowest (w : Word) : Nat := (w &&& -w).toNat.log2

theorem getLsbD_and_neg (w : Word) (i : Nat) :
    (w &&& -w).getLsbD i = (w.getLsbD i && !decide (∃ j, j < i ∧ w.getLsbD j = true)) := by
  rw [BitVec.getLsbD_and, BitVec.getLsbD_neg]
  by_cases hi : i < 64
  · cases w.getLsbD i <;> simp [hi]
  · simp [BitVec.getLsbD_of_ge w i (by omega)]

theorem lowest_eq_ctz {w : Word} (h : w ≠ 0) : lowest w = w.ctz.toNat := by
  have hset := BitVec.getLsbD_true_ctz_of_ne_zero (x := w) h
  have hlow : ∀ j, j < w.ctz.toNat → w.getLsbD j = false := fun j hj =>
    BitVec.getLsbD_false_of_lt_ctz hj
  have hlt : w.ctz.toNat < 64 := BitVec.lt_of_getLsbD hset
  have hbit : w &&& -w = bit w.ctz.toNat := by
    apply BitVec.eq_of_getLsbD_eq
    intro i _
    rw [getLsbD_and_neg, getLsbD_bit]
    rcases Nat.lt_trichotomy i w.ctz.toNat with hi | hi | hi
    · simp [hlow i hi, Nat.ne_of_gt hi]
    · subst hi
      have : ¬ ∃ j, j < w.ctz.toNat ∧ w.getLsbD j = true := fun ⟨j, hj, hb⟩ => by
        simp [hlow j hj] at hb
      simp [hset, hlt, this]
    · have : ∃ j, j < i ∧ w.getLsbD j = true := ⟨_, hi, hset⟩
      simp [this, Nat.ne_of_lt hi]
  rw [lowest, hbit, bit, BitVec.toNat_twoPow_of_lt hlt, Nat.log2_two_pow]

/-- Taking one from a nonzero word and keeping the common bits gives a smaller
word, so the walk over the set bits ends. -/
theorem and_sub_one_lt {w : Word} (h : w ≠ 0) : (w &&& (w - 1)).toNat < w.toNat := by
  have hpos : 0 < w.toNat :=
    Nat.pos_of_ne_zero fun h0 => h (BitVec.eq_of_toNat_eq (by simpa using h0))
  have hsub : (w - 1).toNat = w.toNat - 1 := by
    have := w.isLt
    have h1 : (1 : Word).toNat = 1 := by decide
    rw [BitVec.toNat_sub, h1]
    omega
  rw [BitVec.toNat_and]
  exact Nat.lt_of_le_of_lt Nat.and_le_right (by omega)

/-- The set positions in increasing order: the lowest one, then those of the
word without it. -/
def bitsUp (w : Word) : List Nat :=
  if h : w = 0 then [] else lowest w :: bitsUp (w &&& (w - 1))
termination_by w.toNat
decreasing_by exact and_sub_one_lt h

@[simp] theorem bitsUp_zero : bitsUp 0 = [] := by
  rw [bitsUp]; simp

/-! ## Text -/

/-- Lower-case hexadecimal with the usual mark in front and no leading zeros. -/
def hex (w : Word) : String := "0x" ++ String.ofList (Nat.toDigits 16 w.toNat)

end Word

end ThreadAffinity
