import ThreadAffinity.CpuList.Number

/-!
# Items of a processor list

An item lists the numbers from `first` to `last` in steps of `stride`. Items stay
symbolic: `0-4294967295:2` lists two thousand million numbers and is handled
without counting them. What a user of the list needs is membership
(`Item.lists`) and the first number at or beyond a bound (`Item.nextFrom?`).
-/

namespace ThreadAffinity

namespace CpuList

/-- The numbers `first`, `first + stride`, … up to `last`. -/
structure Item where
  first : Nat
  last : Nat
  stride : Nat
  first_le_last : first ≤ last
  stride_pos : 0 < stride
deriving Repr, DecidableEq

namespace Item

def single (n : Nat) : Item := ⟨n, n, 1, Nat.le_refl n, Nat.one_pos⟩

def lists (item : Item) (n : Nat) : Bool :=
  item.first ≤ n && n ≤ item.last && (n - item.first) % item.stride == 0

theorem lists_iff {item : Item} {n : Nat} :
    item.lists n = true ↔
      item.first ≤ n ∧ n ≤ item.last ∧ ∃ k, n = item.first + k * item.stride := by
  simp only [lists, Bool.and_eq_true, decide_eq_true_eq, beq_iff_eq, and_assoc]
  refine and_congr_right fun hf => and_congr_right fun _ => ⟨fun h => ?_, fun ⟨k, hk⟩ => ?_⟩
  · refine ⟨(n - item.first) / item.stride, ?_⟩
    have := Nat.div_add_mod (n - item.first) item.stride
    rw [Nat.mul_comm] at this
    omega
  · rw [hk, Nat.add_sub_cancel_left, Nat.mul_mod_left]

@[simp] theorem lists_single (n m : Nat) : (single n).lists m = decide (n = m) := by
  rw [Bool.eq_iff_iff, lists_iff, decide_eq_true_eq]
  simp only [single]
  exact ⟨fun h => by omega, fun h => ⟨by omega, by omega, 0, by omega⟩⟩

/-- The smallest listed number that is at least `bound`, if there is one: the
first step at or beyond the bound, unless it overshoots the end. -/
def nextFrom? (item : Item) (bound : Nat) : Option Nat :=
  let steps := (bound - item.first + (item.stride - 1)) / item.stride
  let n := item.first + steps * item.stride
  if n ≤ item.last then some n else none

/-- Rounding the distance up reaches the bound and, with one step less, stays
short of it. -/
theorem steps_bounds (item : Item) (d : Nat) :
    d ≤ (d + (item.stride - 1)) / item.stride * item.stride ∧
      ∀ k, d ≤ k * item.stride → (d + (item.stride - 1)) / item.stride ≤ k := by
  have hpos := item.stride_pos
  refine ⟨?_, fun k hk => ?_⟩
  · have h1 := Nat.div_add_mod (d + (item.stride - 1)) item.stride
    have h2 := Nat.mod_lt (d + (item.stride - 1)) hpos
    rw [Nat.mul_comm] at h1
    omega
  · rw [← Nat.lt_succ_iff, Nat.div_lt_iff_lt_mul hpos, Nat.succ_mul]
    omega

theorem nextFrom?_eq_some {item : Item} {bound n : Nat} (h : item.nextFrom? bound = some n) :
    item.lists n = true ∧ bound ≤ n ∧ ∀ m, item.lists m = true → bound ≤ m → n ≤ m := by
  simp only [nextFrom?] at h
  split at h
  · rename_i hle
    obtain ⟨h1, h2⟩ := steps_bounds item (bound - item.first)
    obtain rfl := Option.some.inj h
    refine ⟨lists_iff.mpr ⟨Nat.le_add_right _ _, hle, _, rfl⟩, by omega, fun m hm hb => ?_⟩
    obtain ⟨_, _, k, rfl⟩ := lists_iff.mp hm
    exact Nat.add_le_add_left (Nat.mul_le_mul_right _ (h2 k (by omega))) _
  · cases h

theorem nextFrom?_eq_none {item : Item} {bound : Nat} (h : item.nextFrom? bound = none)
    {m : Nat} (hm : item.lists m = true) : m < bound := by
  simp only [nextFrom?] at h
  split at h
  · cases h
  · rename_i hgt
    obtain ⟨_, h2⟩ := steps_bounds item (bound - item.first)
    obtain ⟨_, hl, k, rfl⟩ := lists_iff.mp hm
    by_cases hb : bound ≤ item.first + k * item.stride
    · have := Nat.mul_le_mul_right item.stride (h2 k (by omega))
      omega
    · omega

end Item

end CpuList

end ThreadAffinity
