import ThreadAffinity.Proofs.CpuList.Expansion
import ThreadAffinity.Proofs.CpuList.RoundTrip

/-!
# The grammar of processor lists

What a processor list may look like is said here without the reader. A number is a run of digits
behind an optional plus sign (`Numeral`), and a part of a list is empty, a number, or a range
with or without a stride (`Part`). The reader takes exactly the texts whose parts are of these
forms (`exists_parse_iff`), and takes them for the numbers that their parts list
(`mem_numbers_of_parse`). Both are proved from the digits up, one reader after the other.

A range is cut at its first dash and its first colon. That these are the ones the grammar means
needs no proviso, since a number has neither.
-/

namespace ThreadAffinity

namespace CpuList

variable {text part before after start finish step : List Char} {n value first last stride : Nat}
  {c sep : Char} {item : Item} {item? : Option Item}

theorem bind_eq_ok_iff {ε α β : Type} {x : Except ε α} {f : α → Except ε β} {b : β} :
    x >>= f = .ok b ↔ ∃ a, x = .ok a ∧ f a = .ok b := by
  cases x with
  | error fault => exact ⟨nofun, nofun⟩
  | ok a =>
      refine ⟨fun h => ⟨a, rfl, h⟩, ?_⟩
      rintro ⟨_, ⟨⟩, h⟩
      exact h

theorem map_eq_ok_iff {ε α β : Type} {x : Except ε α} {f : α → β} {b : β} :
    x.map f = .ok b ↔ ∃ a, x = .ok a ∧ f a = b := by
  cases x with
  | error fault => exact ⟨nofun, nofun⟩
  | ok a => simp [Except.map]

/-! ## Numbers -/

/-- The text is a number: digits behind an optional plus sign, with a value that fits. -/
def Numeral (text : List Char) (n : Nat) : Prop :=
  ∃ digits, (text = digits ∨ text = '+' :: digits) ∧ digits ≠ [] ∧
    (∀ c ∈ digits, c.isDigit = true) ∧ Nat.ofDigitChars 10 digits 0 = n ∧ n < numberLimit

theorem Numeral.not_mem (h : Numeral text n) (hplus : c ≠ '+') (hdigit : c.isDigit = false) :
    c ∉ text := by
  obtain ⟨digits, htext, -, hdigits, -⟩ := h
  have hnot : c ∉ digits := by
    intro hc
    rw [hdigits c hc] at hdigit
    cases hdigit
  rcases htext with rfl | rfl
  · exact hnot
  · exact fun hc => (List.mem_cons.mp hc).elim hplus hnot

theorem Numeral.ne_nil (h : Numeral text n) : text ≠ [] := by
  obtain ⟨digits, rfl | rfl, hne, -⟩ := h
  · exact hne
  · exact List.cons_ne_nil _ _

/-- More digits never make a number smaller. -/
theorem le_ofDigitChars (text : List Char) (value : Nat) :
    value ≤ Nat.ofDigitChars 10 text value := by
  rw [Nat.ofDigitChars_eq_ofDigitChars_zero]
  have hpos : 0 < 10 ^ text.length := Nat.pow_pos (by decide)
  have := Nat.le_mul_of_pos_left value hpos
  omega

theorem readDigits_eq_ok_iff (hvalue : value < numberLimit) :
    readDigits value text = .ok n ↔
      (∀ c ∈ text, c.isDigit = true) ∧ Nat.ofDigitChars 10 text value = n ∧ n < numberLimit := by
  induction text generalizing value with
  | nil =>
      rw [readDigits, Except.ok.injEq, Nat.ofDigitChars_nil]
      constructor
      · rintro rfl
        exact ⟨fun c hc => absurd hc List.not_mem_nil, rfl, hvalue⟩
      · exact fun h => h.2.1
  | cons c text ih =>
      rw [readDigits, digitValue?, List.forall_mem_cons, Nat.ofDigitChars_cons]
      by_cases hc : c.isDigit = true
      · rw [if_pos hc, and_iff_right hc]
        simp only
        split
        · rename_i hlt
          exact ih hlt
        · -- the value has outgrown the limit and will not come back
          rename_i hge
          constructor
          · intro h
            cases h
          · rintro ⟨-, rfl, hlt⟩
            exact absurd (Nat.lt_of_le_of_lt (le_ofDigitChars text _) hlt) hge
      · rw [if_neg hc]
        constructor
        · intro h
          cases h
        · exact fun h => absurd h.1.1 hc

theorem readNumber_eq_ok_iff : readNumber text = .ok n ↔ Numeral text n := by
  have hzero : 0 < numberLimit := by decide
  have hread : ∀ digits, readDigits 0 digits = .ok n ↔ _ := fun _ => readDigits_eq_ok_iff hzero
  have hplus : ¬ '+'.isDigit = true := by decide
  unfold readNumber
  split
  · exact ⟨nofun, fun h => absurd rfl h.ne_nil⟩
  · refine ⟨nofun, ?_⟩
    rintro ⟨digits, rfl | heq, hne, hdigits, -⟩
    · exact absurd (hdigits '+' List.mem_cons_self) hplus
    · exact absurd (List.cons.inj heq).2.symm hne
  · rename_i rest hrest
    rw [hread]
    constructor
    · rintro ⟨hdigits, hn, hlt⟩
      exact ⟨rest, Or.inr rfl, fun hnil => hrest (by rw [hnil]), hdigits, hn, hlt⟩
    · rintro ⟨digits, rfl | heq, -, hdigits, hn, hlt⟩
      · exact absurd (hdigits '+' List.mem_cons_self) hplus
      · obtain rfl := (List.cons.inj heq).2
        exact ⟨hdigits, hn, hlt⟩
  · rename_i hnil hlone hsigned
    rw [hread]
    constructor
    · rintro ⟨hdigits, hn, hlt⟩
      exact ⟨text, Or.inl rfl, hnil, hdigits, hn, hlt⟩
    · rintro ⟨digits, rfl | rfl, -, hdigits, hn, hlt⟩
      · exact ⟨hdigits, hn, hlt⟩
      · exact absurd rfl (hsigned digits)

theorem numberOr_eq_ok_iff {fault : List Char → NumberFault → Fault} :
    numberOr fault text = .ok n ↔ Numeral text n := by
  rw [← readNumber_eq_ok_iff, numberOr]
  cases readNumber text with
  | ok m => simp only [Except.ok.injEq]
  | error why => simp only [reduceCtorEq]

/-! ## Parts -/

/-- The forms of a part and the item that each of them stands for. -/
inductive Part : List Char → Option Item → Prop
  | blank : Part [] none
  | number {text : List Char} {n : Nat} (h : Numeral text n) : Part text (some (.single n))
  | range {start finish : List Char} {first last : Nat} (hstart : Numeral start first)
      (hfinish : Numeral finish last) (hle : first ≤ last) :
      Part (start ++ '-' :: finish) (some ⟨first, last, 1, hle, Nat.one_pos⟩)
  | strided {start finish step : List Char} {first last stride : Nat}
      (hstart : Numeral start first) (hfinish : Numeral finish last) (hstep : Numeral step stride)
      (hle : first ≤ last) (hpos : 0 < stride) :
      Part (start ++ '-' :: (finish ++ ':' :: step)) (some ⟨first, last, stride, hle, hpos⟩)

theorem cutFirst?_eq_some_iff :
    cutFirst? sep text = some (before, after) ↔ text = before ++ sep :: after ∧ sep ∉ before := by
  constructor
  · intro h
    by_cases hsep : sep ∈ text
    · obtain ⟨front, back, rfl, hfront⟩ := List.eq_append_cons_of_mem hsep
      rw [cutFirst?_append hfront] at h
      obtain ⟨rfl, rfl⟩ := Prod.mk.inj (Option.some.inj h)
      exact ⟨rfl, hfront⟩
    · rw [cutFirst?_of_not_mem hsep] at h
      cases h
  · rintro ⟨rfl, hbefore⟩
    exact cutFirst?_append hbefore after

theorem not_mem_of_cutFirst? (h : cutFirst? sep text = none) : sep ∉ text := by
  intro hsep
  obtain ⟨front, back, rfl, hfront⟩ := List.eq_append_cons_of_mem hsep
  rw [cutFirst?_append hfront] at h
  cases h

/-- What may stand behind the dash of a range. -/
theorem readRest_eq_ok_iff : readRest text = .ok (last, stride) ↔
    Numeral text last ∧ stride = 1 ∨
      ∃ finish step, text = finish ++ ':' :: step ∧ Numeral finish last ∧ Numeral step stride := by
  unfold readRest
  cases hcut : cutFirst? ':' text with
  | none =>
      have hcolon := not_mem_of_cutFirst? hcut
      simp only [bind_eq_ok_iff, numberOr_eq_ok_iff]
      constructor
      · rintro ⟨n, hn, ⟨⟩⟩
        exact Or.inl ⟨hn, rfl⟩
      · rintro (⟨hlast, rfl⟩ | ⟨finish, step, rfl, -⟩)
        · exact ⟨last, hlast, rfl⟩
        · simp at hcolon
  | some cut =>
      obtain ⟨finish, step⟩ := cut
      obtain ⟨rfl, hfinish⟩ := cutFirst?_eq_some_iff.mp hcut
      simp only [bind_eq_ok_iff, numberOr_eq_ok_iff]
      constructor
      · rintro ⟨n, hn, m, hm, ⟨⟩⟩
        exact Or.inr ⟨finish, step, rfl, hn, hm⟩
      · rintro (⟨hlast, -⟩ | ⟨finish', step', heq, hlast, hstride⟩)
        · have hcolon : ':' ∉ finish ++ ':' :: step := hlast.not_mem (by decide) (by decide)
          simp at hcolon
        · have hcolon : ':' ∉ finish' := hlast.not_mem (by decide) (by decide)
          rw [heq, cutFirst?_append hcolon] at hcut
          obtain ⟨rfl, rfl⟩ := Prod.mk.inj (Option.some.inj hcut)
          exact ⟨last, hlast, stride, hstride, rfl⟩

theorem readRange_eq_ok_iff : readRange start text = .ok item ↔
    Numeral start item.first ∧ readRest text = .ok (item.last, item.stride) := by
  unfold readRange
  simp only [bind_eq_ok_iff, numberOr_eq_ok_iff]
  constructor
  · rintro ⟨first, hfirst, ⟨last, stride⟩, hrest, h⟩
    simp only at h
    split at h
    · split at h
      · obtain rfl := Except.ok.inj h
        exact ⟨hfirst, hrest⟩
      · cases h
    · cases h
  · rintro ⟨hfirst, hrest⟩
    refine ⟨item.first, hfirst, (item.last, item.stride), hrest, ?_⟩
    simp only
    rw [dif_pos item.stride_pos, dif_pos item.first_le_last]
    rfl

theorem readPart_of_dash (hstart : Numeral start n) (h : readRange start text = .ok item) :
    readPart (start ++ '-' :: text) = .ok (some item) := by
  have hne : start ++ '-' :: text ≠ [] :=
    List.append_ne_nil_of_right_ne_nil _ (List.cons_ne_nil _ _)
  have hdash : '-' ∉ start := hstart.not_mem (by decide) (by decide)
  rw [readPart_of_ne_nil hne, cutFirst?_append hdash]
  simp only [h]
  rfl

theorem Part.readPart_eq (h : Part part item?) : readPart part = .ok item? := by
  cases h with
  | blank => rfl
  | number hn =>
      have hdash : '-' ∉ part := hn.not_mem (by decide) (by decide)
      rw [readPart_of_ne_nil hn.ne_nil, cutFirst?_of_not_mem hdash]
      simp only [numberOr_eq_ok_iff.mpr hn]
      rfl
  | range hstart hfinish hle =>
      have hrest := readRest_eq_ok_iff.mpr (Or.inl ⟨hfinish, rfl⟩)
      exact readPart_of_dash hstart (readRange_eq_ok_iff.mpr ⟨hstart, hrest⟩)
  | strided hstart hfinish hstep hle hpos =>
      have hrest := readRest_eq_ok_iff.mpr (Or.inr ⟨_, _, rfl, hfinish, hstep⟩)
      exact readPart_of_dash hstart (readRange_eq_ok_iff.mpr ⟨hstart, hrest⟩)

theorem part_of_readRange (h : readRange start text = .ok item) :
    Part (start ++ '-' :: text) (some item) := by
  obtain ⟨hstart, hrest⟩ := readRange_eq_ok_iff.mp h
  obtain ⟨first, last, stride, hle, hpos⟩ := item
  rcases readRest_eq_ok_iff.mp hrest with ⟨hfinish, hone⟩ | ⟨finish, step, rfl, hfinish, hstep⟩
  · simp only at hone
    subst hone
    exact .range hstart hfinish hle
  · exact .strided hstart hfinish hstep hle hpos

/-- A part is read exactly if it has one of the forms, as what it stands for. -/
theorem readPart_eq_ok_iff : readPart part = .ok item? ↔ Part part item? := by
  refine ⟨fun h => ?_, Part.readPart_eq⟩
  by_cases hnil : part = []
  · subst hnil
    obtain rfl := Except.ok.inj h
    exact .blank
  · rw [readPart_of_ne_nil hnil] at h
    cases hcut : cutFirst? '-' part with
    | none =>
        rw [hcut] at h
        obtain ⟨n, hn, rfl⟩ := map_eq_ok_iff.mp h
        exact .number (numberOr_eq_ok_iff.mp hn)
    | some cut =>
        rw [hcut] at h
        obtain ⟨item, hrange, rfl⟩ := map_eq_ok_iff.mp h
        obtain ⟨rfl, -⟩ := cutFirst?_eq_some_iff.mp hcut
        exact part_of_readRange hrange

/-! ## Lists -/

/-- Every part between the commas of the text has one of the forms. -/
def WellFormed (text : String) : Prop := ∀ part ∈ text.toList.splitOn ',', ∃ item?, Part part item?

theorem exists_readParts_iff {parts : List (List Char)} :
    (∃ items, readParts parts = .ok items) ↔ ∀ part ∈ parts, ∃ item?, Part part item? := by
  induction parts with
  | nil => exact ⟨fun _ _ hpart => absurd hpart List.not_mem_nil, fun _ => ⟨[], rfl⟩⟩
  | cons part parts ih =>
      simp only [readParts, bind_eq_ok_iff, readPart_eq_ok_iff, List.forall_mem_cons, ← ih]
      constructor
      · rintro ⟨_, item?, hpart, items, hitems, -⟩
        exact ⟨⟨item?, hpart⟩, items, hitems⟩
      · rintro ⟨⟨item?, hpart⟩, items, hitems⟩
        exact ⟨_, item?, hpart, items, hitems, rfl⟩

theorem exists_parse_iff {text : String} : (∃ items, parse text = .ok items) ↔ WellFormed text :=
  exists_readParts_iff

/-- What is read are the items that the parts stand for. -/
theorem mem_of_readParts {parts : List (List Char)} {items : List Item}
    (h : readParts parts = .ok items) : item ∈ items ↔ ∃ part ∈ parts, Part part (some item) := by
  induction parts generalizing items with
  | nil =>
      obtain rfl := Except.ok.inj h
      simp
  | cons part parts ih =>
      simp only [readParts, bind_eq_ok_iff] at h
      obtain ⟨item?, hpart, others, hothers, hitems⟩ := h
      obtain rfl := Except.ok.inj hitems
      have hfirst : item? = some item ↔ Part part (some item) := by
        rw [← readPart_eq_ok_iff, hpart, Except.ok.injEq]
      rw [List.mem_append, Option.mem_toList, ih hothers, hfirst]
      simp only [List.mem_cons, exists_eq_or_imp]

def Listed (text : String) (n : Nat) : Prop :=
  ∃ part ∈ text.toList.splitOn ',', ∃ item, Part part (some item) ∧ n ∈ item.numbers

theorem mem_numbers_of_parse {text : String} {items : List Item} (h : parse text = .ok items) :
    n ∈ numbers items ↔ Listed text n := by
  rw [mem_numbers, names, List.any_eq_true]
  simp only [mem_of_readParts h, ← Item.mem_numbers]
  constructor
  · rintro ⟨item, ⟨part, hpart, hform⟩, hn⟩
    exact ⟨part, hpart, item, hform, hn⟩
  · rintro ⟨part, hpart, item, hform, hn⟩
    exact ⟨item, ⟨part, hpart, hform⟩, hn⟩

end CpuList

end ThreadAffinity
