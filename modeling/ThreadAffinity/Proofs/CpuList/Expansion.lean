import Mathlib.Data.Finset.Sort
import ThreadAffinity.CpuList.Parser

/-!
# Processor lists counted out

Items are kept as they were written and nobody counts what they list. Here they are counted out:
`Item.numbers` goes through an item step by step, and `numbers` is what a whole list comes to,
in increasing order and without repetitions. The two questions that can be asked of the symbolic
form get the answers that the numbers give, membership (`mem_numbers`) and the first number from
a bound on (`find?_numbers`).
-/

namespace ThreadAffinity

namespace CpuList

variable {items : List Item} {item : Item} {n bound : Nat}

namespace Item

/-- The numbers that an item lists, first one first. -/
def numbers (item : Item) : List Nat :=
  (List.range ((item.last - item.first) / item.stride + 1)).map (item.first + · * item.stride)

theorem mem_numbers : n ∈ item.numbers ↔ item.lists n = true := by
  have hle := item.first_le_last
  have hsteps : ∀ k, k < (item.last - item.first) / item.stride + 1 ↔
      item.first + k * item.stride ≤ item.last := by
    intro k
    rw [Nat.lt_succ_iff, Nat.le_div_iff_mul_le item.stride_pos]
    omega
  rw [numbers, List.mem_map, lists_iff]
  constructor
  · rintro ⟨k, hk, rfl⟩
    exact ⟨Nat.le_add_right _ _, (hsteps k).mp (List.mem_range.mp hk), k, rfl⟩
  · rintro ⟨-, hlast, k, rfl⟩
    exact ⟨k, List.mem_range.mpr ((hsteps k).mpr hlast), rfl⟩

end Item

/-- The numbers that a list names, sorted and each of them once. -/
def numbers (items : List Item) : List Nat := (items.flatMap Item.numbers).toFinset.sort

theorem mem_numbers : n ∈ numbers items ↔ names items n = true := by
  rw [numbers, Finset.mem_sort, List.mem_toFinset, List.mem_flatMap, names, List.any_eq_true]
  exact exists_congr fun item => and_congr_right fun _ => Item.mem_numbers

theorem numbers_pairwise (items : List Item) : (numbers items).Pairwise (· < ·) :=
  (Finset.sortedLT_sort _).pairwise

/-! ## The first number from a bound on -/

/-- In an increasing list the first number from a bound on is the least one. -/
theorem find?_eq_some_iff_least {l : List Nat} (h : l.Pairwise (· < ·)) :
    l.find? (bound ≤ ·) = some n ↔ n ∈ l ∧ bound ≤ n ∧ ∀ m ∈ l, bound ≤ m → n ≤ m := by
  induction l with
  | nil => simp
  | cons first l ih =>
      obtain ⟨hfirst, hl⟩ := List.pairwise_cons.mp h
      rw [List.find?_cons, List.mem_cons, List.forall_mem_cons]
      by_cases hbound : bound ≤ first
      · simp only [decide_eq_true hbound, Option.some.injEq]
        constructor
        · rintro rfl
          exact ⟨Or.inl rfl, hbound, fun _ => Nat.le_refl _,
            fun m hm _ => Nat.le_of_lt (hfirst m hm)⟩
        · rintro ⟨rfl | hn, -, hle, -⟩
          · rfl
          · exact absurd (hfirst n hn) (Nat.not_lt.mpr (hle hbound))
      · simp only [decide_eq_false hbound, ih hl]
        constructor
        · rintro ⟨hn, hle, hleast⟩
          exact ⟨Or.inr hn, hle, fun hfirst => absurd hfirst hbound, hleast⟩
        · rintro ⟨rfl | hn, hle, -, hleast⟩
          · exact absurd hle hbound
          · exact ⟨hn, hle, hleast⟩

theorem nextFrom?_eq_some_iff : nextFrom? items bound = some n ↔
    names items n = true ∧ bound ≤ n ∧ ∀ m, names items m = true → bound ≤ m → n ≤ m := by
  have hnext : ∀ {item m}, item ∈ items → item.lists m = true → bound ≤ m →
      ∃ k ∈ items.filterMap (·.nextFrom? bound), k ≤ m := by
    intro item m hitem hm hbound
    cases hnext : item.nextFrom? bound with
    | none => exact absurd (Item.nextFrom?_eq_none hnext hm) (Nat.not_lt.mpr hbound)
    | some k =>
        exact ⟨k, List.mem_filterMap.mpr ⟨item, hitem, hnext⟩,
          (Item.nextFrom?_eq_some hnext).2.2 m hm hbound⟩
  have hfound : ∀ {k}, k ∈ items.filterMap (·.nextFrom? bound) →
      names items k = true ∧ bound ≤ k := by
    intro k hk
    obtain ⟨item, hitem, hnext⟩ := List.mem_filterMap.mp hk
    obtain ⟨hlists, hbound, -⟩ := Item.nextFrom?_eq_some hnext
    exact ⟨List.any_eq_true.mpr ⟨item, hitem, hlists⟩, hbound⟩
  rw [nextFrom?, List.min?_eq_some_iff]
  constructor
  · rintro ⟨hn, hleast⟩
    refine ⟨(hfound hn).1, (hfound hn).2, fun m hm hbound => ?_⟩
    obtain ⟨item, hitem, hlists⟩ := List.any_eq_true.mp hm
    obtain ⟨k, hk, hle⟩ := hnext hitem hlists hbound
    exact Nat.le_trans (hleast k hk) hle
  · rintro ⟨hn, hbound, hleast⟩
    have hbelow : ∀ k ∈ items.filterMap (·.nextFrom? bound), n ≤ k := fun k hk =>
      hleast k (hfound hk).1 (hfound hk).2
    obtain ⟨item, hitem, hlists⟩ := List.any_eq_true.mp hn
    obtain ⟨k, hk, hle⟩ := hnext hitem hlists hbound
    obtain rfl := Nat.le_antisymm hle (hbelow k hk)
    exact ⟨hk, hbelow⟩

theorem find?_numbers (items : List Item) (bound : Nat) :
    (numbers items).find? (bound ≤ ·) = nextFrom? items bound := by
  ext n
  rw [find?_eq_some_iff_least (numbers_pairwise items), nextFrom?_eq_some_iff]
  simp only [mem_numbers]

end CpuList

end ThreadAffinity
