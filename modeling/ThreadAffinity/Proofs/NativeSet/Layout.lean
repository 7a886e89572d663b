import Mathlib.Algebra.Order.Floor.Div
import Mathlib.GroupTheory.GroupAction.Ring
import ThreadAffinity.Proofs.NativeSet.Views

/-!
# The words of a native set

A system is handed the words of a set as they are, so it matters what stands in them: after
any steps there are just as many words as the processors that the set was made for need, and
each bit of each word speaks of one processor (`words_hold_insertions`).

Unlike the capacity and the list of a set, which give up on the last processor number of all
(`viewsAgree_iff_exactly`), the words are right for every size a set can be made for.
-/

namespace ThreadAffinity

namespace NativeSet

variable {set : NativeSet} {steps : List Step} {n p : Nat}

/-- The processor was to be inserted, and the set was not cleared since. -/
def Requested (steps : List Step) (p : Nat) : Prop :=
  ∃ before later, steps = before ++ .insert p :: later ∧ .clear ∉ later

theorem ceilDiv_eq (n : Nat) : n ⌈/⌉ 64 = (n + 63) / 64 := by
  rw [Nat.ceilDiv_eq_add_pred_div]
  rfl

theorem size_words_after_ofCapacity (n : Nat) (steps : List Step) :
    (after steps (ofCapacity n)).words.size = n ⌈/⌉ 64 := by
  rw [size_words_after, ofCapacity, Words.size_zeros, ceilDiv_eq]

/-- An insertion fails for want of a word, and for no other reason. -/
theorem inserted_iff :
    Inserted (ofCapacity n) steps p ↔ Requested steps p ∧ p < 64 * (n ⌈/⌉ 64) := by
  rw [ceilDiv_eq]
  constructor
  · rintro ⟨before, later, hsteps, hfits, hclear⟩
    exact ⟨⟨before, later, hsteps, hclear⟩, (insert_after n before p).mp hfits⟩
  · rintro ⟨⟨before, later, hsteps, hclear⟩, hroom⟩
    exact ⟨before, later, hsteps, (insert_after n before p).mpr hroom, hclear⟩

/-- Bit `b` of word `i` is the bit of processor `64 * i + b`. -/
theorem getLsbD_word {i b : Nat} {word : Word} (hword : set.words[i]? = some word) (hb : b < 64) :
    word.getLsbD b = set.contains (64 * i + b) := by
  have hdiv : (64 * i + b) / 64 = i := by omega
  have hmod : (64 * i + b) % 64 = b := by omega
  rw [contains, Words.test, hdiv, hmod, hword]

/-- What cannot be inserted leaves the set as it was. -/
theorem insert_of_room_le (h : Words.room set.words ≤ p) : set.insert p = (false, set) := by
  rw [insert, Words.put_of_room_le h, decide_eq_false (Nat.not_lt.mpr h)]

/-- After any steps a set has the words it needs and no more, and these hold what was inserted
since the last clearing. A processor behind the last word is turned away without a change. -/
theorem words_hold_insertions (n : Nat) (steps : List Step) :
    let set := after steps (ofCapacity n)
    set.words.size = n ⌈/⌉ 64 ∧ set.byteSize = 8 * (n ⌈/⌉ 64) ∧
      (∀ i word, set.words[i]? = some word → ∀ b < 64,
        (word.getLsbD b = true ↔ Requested steps (64 * i + b))) ∧
      ∀ p, ((set.insert p).1 = true ↔ p < 64 * (n ⌈/⌉ 64)) ∧
        (64 * (n ⌈/⌉ 64) ≤ p → (set.insert p).2 = set) := by
  intro set
  have hsize : set.words.size = n ⌈/⌉ 64 := size_words_after_ofCapacity n steps
  refine ⟨hsize, ?_, fun i word hword b hb => ?_, fun p => ⟨?_, fun hbeyond => ?_⟩⟩
  · rw [byteSize, hsize]
  · have hi : i < n ⌈/⌉ 64 := hsize ▸ (Array.getElem?_eq_some_iff.mp hword).1
    rw [getLsbD_word hword hb, contains_after, inserted_iff]
    exact and_iff_left (by omega)
  · rw [insert_after, ceilDiv_eq]
  · have hroom : Words.room set.words ≤ p := by rwa [Words.room, hsize]
    rw [insert_of_room_le hroom]

/-- Words come whole, so a set that was made for 129 processors has room for 192. -/
example : (after [.insert 5, .clear, .insert 191, .insert 192] (ofCapacity 129)).words =
    #[0, 0, 0x8000000000000000] := by decide

end NativeSet

end ThreadAffinity
