import ThreadAffinity.CpuList.Printer
import ThreadAffinity.Error
import ThreadAffinity.Words

/-!
# Masks

A mask is a set of processors below `processorLimit`, held in sixteen words. Its
one view is `Mask.contains`; every operation is described by what it does to the
view, and masks with the same view are equal.
-/

namespace ThreadAffinity

/-- How many words hold a bit for every processor in use. -/
def maskWords : Nat := processorLimit / 64

/-- A set of processors below the limit. -/
structure Mask where
  words : Array Word
  size_words : words.size = maskWords
deriving Repr, DecidableEq

namespace Mask

/-! ## Operations -/

def empty : Mask := ⟨Words.zeros maskWords, Words.size_zeros _⟩

/-- The mask whose first word is given and whose other words are zero. -/
def ofWord (word : Word) : Mask :=
  ⟨(Words.zeros maskWords).setIfInBounds 0 word, by simp⟩

/-- Whether the processor is selected; one beyond the limit never is. -/
def contains (mask : Mask) (processor : Nat) : Bool :=
  decide (processor < processorLimit) && Words.test mask.words processor

/-- The mask with a processor added; unchanged for one beyond the limit. -/
def adding (mask : Mask) (processor : Nat) : Mask :=
  ⟨Words.put mask.words processor, by simp [mask.size_words]⟩

/-- Selects a processor; one beyond the limit is refused. -/
def insert (mask : Mask) (processor : Nat) : Except Error Mask :=
  if processor < processorLimit then .ok (mask.adding processor)
  else .error (.beyondLimit processor)

/-- Takes a processor out and says whether it was selected. -/
def remove (mask : Mask) (processor : Nat) : Bool × Mask :=
  if mask.contains processor then
    (true, ⟨Words.drop mask.words processor, by simp [mask.size_words]⟩)
  else (false, mask)

/-- Selects the processors of a list one after the other; the first one that is
beyond the limit is the error. -/
def ofProcessors (processors : List Nat) : Except Error Mask :=
  processors.foldlM insert empty

def ofProcessor (processor : Nat) : Except Error Mask := empty.insert processor

/-- The selected processors in increasing order. -/
def members (mask : Mask) : List Nat := Words.members mask.words

def size (mask : Mask) : Nat := Words.count mask.words

def isEmpty (mask : Mask) : Bool := Words.isEmpty mask.words

/-- The mask that a processor list names. The numbers of a list are taken in
increasing order, so what is reported is the smallest one beyond the limit. -/
def ofList (text : String) : Except Error Mask :=
  match CpuList.parse text with
  | .error fault => .error (.invalidList fault)
  | .ok items =>
    match CpuList.nextFrom? items processorLimit with
    | some processor => .error (.beyondLimit processor)
    | none => ofProcessors ((List.range processorLimit).filter (CpuList.names items))

def display (mask : Mask) : String := CpuList.print mask.members

/-- The mask's words in decimal. -/
def describe (mask : Mask) : String :=
  "CpuMask \x7b words: [" ++
    ", ".intercalate (mask.words.toList.map fun word => toString word.toNat) ++ "] \x7d"

/-! ## The view -/

@[simp] theorem room_words (mask : Mask) : Words.room mask.words = processorLimit := by
  simp [Words.room, mask.size_words, maskWords, processorLimit]

theorem contains_eq_test (mask : Mask) (p : Nat) : mask.contains p = Words.test mask.words p := by
  simp only [contains, Bool.and_eq_right_iff_imp, decide_eq_true_eq]
  intro h
  simpa using Words.lt_room_of_test h

theorem lt_of_contains {mask : Mask} {p : Nat} (h : mask.contains p = true) :
    p < processorLimit := by
  simp only [contains, Bool.and_eq_true, decide_eq_true_eq] at h
  exact h.1

@[simp] theorem contains_empty (p : Nat) : empty.contains p = false := by
  simp [contains_eq_test, empty]

/-- Two masks that select the same processors are equal. -/
theorem ext_contains {a b : Mask} (h : ∀ p, a.contains p = b.contains p) : a = b := by
  cases a with
  | mk wa ha =>
    cases b with
    | mk wb hb =>
      have : wa = wb := Words.ext_test (ha.trans hb.symm) fun p => by
        simpa [contains_eq_test] using h p
      subst this
      rfl

theorem contains_adding {p : Nat} (mask : Mask) (h : p < processorLimit) (q : Nat) :
    (mask.adding p).contains q = (mask.contains q || decide (p = q)) := by
  rw [contains_eq_test, contains_eq_test, adding, Words.test_put (by simpa using h)]

theorem insert_of_lt {p : Nat} (mask : Mask) (h : p < processorLimit) :
    mask.insert p = .ok (mask.adding p) := by
  simp [insert, h]

theorem insert_of_ge {p : Nat} (mask : Mask) (h : processorLimit ≤ p) :
    mask.insert p = .error (.beyondLimit p) := by
  simp [insert, Nat.not_lt.mpr h]

@[simp] theorem remove_fst (mask : Mask) (p : Nat) : (mask.remove p).1 = mask.contains p := by
  unfold remove
  split <;> simp_all

@[simp] theorem contains_remove (mask : Mask) (p q : Nat) :
    (mask.remove p).2.contains q = (mask.contains q && decide (p ≠ q)) := by
  unfold remove
  split
  · rw [contains_eq_test, contains_eq_test, Words.test_drop]
  · rename_i h
    by_cases hpq : p = q
    · subst hpq; simpa using h
    · simp [hpq]

end Mask

end ThreadAffinity
