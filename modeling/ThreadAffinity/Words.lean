import ThreadAffinity.Word

/-!
# Arrays of words as bit sets

Position `i` of an array of words is bit `i % 64` of word `i / 64`. The whole
module is stated through one view, `Words.test`: each operation has one lemma
that says what it does to the view, and two arrays of one size are equal exactly
when their views are.
-/

namespace ThreadAffinity

namespace Words

/-- Whether position `i` is set; positions beyond the last word never are. -/
def test (words : Array Word) (i : Nat) : Bool :=
  match words[i / 64]? with
  | some word => word.getLsbD (i % 64)
  | none => false

/-- How many positions the words have room for. -/
def room (words : Array Word) : Nat := 64 * words.size

/-! ## Operations -/

def zeros (count : Nat) : Array Word := Array.replicate count 0

/-- Sets position `i`; without effect beyond the last word. -/
def put (words : Array Word) (i : Nat) : Array Word :=
  words.modify (i / 64) (· ||| Word.bit (i % 64))

/-- Unsets position `i`; without effect beyond the last word. -/
def drop (words : Array Word) (i : Nat) : Array Word :=
  words.modify (i / 64) (· &&& ~~~ Word.bit (i % 64))

def clear (words : Array Word) : Array Word := zeros words.size

/-- The set positions in increasing order, each word's taken lowest bit first. A
word that is zero contributes nothing and costs a single step. -/
def members (words : Array Word) : List Nat :=
  words.toList.zipIdx.flatMap fun (word, n) => (Word.bitsUp word).map (64 * n + ·)

def count (words : Array Word) : Nat :=
  words.toList.foldr (fun word rest => word.popCount + rest) 0

def isEmpty (words : Array Word) : Bool := words.toList.all (· == 0)

/-! ## The view -/

@[simp] theorem size_zeros (n : Nat) : (zeros n).size = n := by simp [zeros]

@[simp] theorem size_put (words : Array Word) (i : Nat) : (put words i).size = words.size := by
  simp [put]

@[simp] theorem size_drop (words : Array Word) (i : Nat) : (drop words i).size = words.size := by
  simp [drop]

@[simp] theorem size_clear (words : Array Word) : (clear words).size = words.size := by
  simp [clear]

theorem lt_room_of_test {words : Array Word} {i : Nat} (h : test words i = true) :
    i < room words := by
  unfold test at h
  split at h
  · rename_i word hw
    have := (Array.getElem?_eq_some_iff.mp hw).1
    simp only [room]; omega
  · cases h

@[simp] theorem test_zeros (n i : Nat) : test (zeros n) i = false := by
  simp only [test, zeros, Array.getElem?_replicate]
  split <;> rename_i h <;> split at h <;> simp_all
  subst h; simp

@[simp] theorem test_clear (words : Array Word) (i : Nat) : test (clear words) i = false :=
  test_zeros words.size i

theorem test_put {words : Array Word} {i : Nat} (hi : i < room words) (j : Nat) :
    test (put words i) j = (test words j || decide (i = j)) := by
  simp only [room] at hi
  simp only [test, put, Array.getElem?_modify]
  by_cases hw : i / 64 = j / 64
  · have hj : j / 64 < words.size := by omega
    simp only [hw, if_true, Array.getElem?_eq_getElem hj, Option.map_some]
    rw [Word.getLsbD_or_bit (Nat.mod_lt _ (by decide))]
    congr 1
    simp only [decide_eq_decide]
    omega
  · have hne : i ≠ j := fun h => hw (by rw [h])
    simp [hw, hne]

/-- Setting a position beyond the last word changes nothing. -/
theorem put_of_room_le {words : Array Word} {i : Nat} (hi : room words ≤ i) :
    put words i = words := by
  simp only [room] at hi
  apply Array.ext_getElem?
  intro j
  simp only [put, Array.getElem?_modify]
  split
  · rename_i h
    subst h
    rw [Array.getElem?_eq_none (by omega)]; rfl
  · rfl

theorem test_drop (words : Array Word) (i j : Nat) :
    test (drop words i) j = (test words j && decide (i ≠ j)) := by
  simp only [test, drop, Array.getElem?_modify]
  by_cases hw : i / 64 = j / 64
  · simp only [hw, if_true]
    cases h : words[j / 64]? with
    | none => simp
    | some word =>
      simp only [Option.map_some, Word.getLsbD_and_not_bit]
      congr 1
      simp only [decide_eq_decide]
      omega
  · have hne : i ≠ j := fun h => hw (by rw [h])
    simp only [hw, if_false]
    simp [hne]

/-- Two arrays of one size with the same view are equal. -/
theorem ext_test {a b : Array Word} (hs : a.size = b.size) (h : ∀ i, test a i = test b i) :
    a = b := by
  apply Array.ext hs
  intro n ha hb
  apply BitVec.eq_of_getLsbD_eq
  intro k hk
  have := h (64 * n + k)
  have hd : (64 * n + k) / 64 = n := by omega
  have hm : (64 * n + k) % 64 = k := by omega
  simpa [test, hd, hm, ha, hb] using this

end Words

end ThreadAffinity
