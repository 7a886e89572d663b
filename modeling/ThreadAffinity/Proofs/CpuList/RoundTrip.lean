import ThreadAffinity.CpuList.Parser
import ThreadAffinity.CpuList.Printer

/-!
# Reading back a written processor list

What is written of some numbers is read again as items that name exactly these numbers
(`parse_print`). Nothing is asked of the order of the numbers: writing draws neighbours
together as they come, and reading asks for membership only.

The proof goes down to the characters and up again. A written number has digits and nothing
else, so neither a dash nor a colon nor a comma is found inside one (`not_mem_digits`). Each
piece is therefore cut where it was put together, the pieces of a run name exactly the run
(`readParts_runPieces`), and the runs cover exactly the numbers (`mem_iff_exists_run`).
-/

namespace ThreadAffinity

namespace CpuList

variable {n first last : Nat} {numbers : List Nat} {run : Nat × Nat}

/-! ## Runs -/

theorem run_ordered (h : run ∈ runs numbers) : run.1 ≤ run.2 := by
  induction numbers generalizing run with
  | nil => cases h
  | cons n rest ih =>
      rw [runs] at h
      cases hruns : runs rest with
      | nil =>
          rw [hruns] at h
          obtain rfl := List.mem_singleton.mp h
          exact Nat.le_refl n
      | cons next more =>
          rw [hruns] at h ih
          have hnext : next.1 ≤ next.2 := ih List.mem_cons_self
          simp only at h
          split at h
          · rcases List.mem_cons.mp h with rfl | h
            · simp only
              omega
            · exact ih (List.mem_cons_of_mem next h)
          · rcases List.mem_cons.mp h with rfl | h
            · exact Nat.le_refl n
            · exact ih h

/-- The runs of a list cover its members and nothing else. -/
theorem mem_iff_exists_run : n ∈ numbers ↔ ∃ run ∈ runs numbers, run.1 ≤ n ∧ n ≤ run.2 := by
  induction numbers with
  | nil => simp [runs]
  | cons m rest ih =>
      rw [runs, List.mem_cons, ih]
      cases hruns : runs rest with
      | nil =>
          simp only [List.not_mem_nil, false_and, exists_false, or_false, List.mem_singleton,
            exists_eq_left]
          omega
      | cons next more =>
          have hnext : next.1 ≤ next.2 := run_ordered (hruns ▸ List.mem_cons_self)
          simp only
          split
          · simp only [List.mem_cons, exists_eq_or_imp, ← or_assoc]
            exact or_congr_left (by omega)
          · simp only [List.mem_cons, exists_eq_or_imp]
            exact or_congr_left (by omega)

theorem run_lt {bound : Nat} (hnumbers : ∀ n ∈ numbers, n < bound) (h : run ∈ runs numbers) :
    run.2 < bound :=
  hnumbers run.2 (mem_iff_exists_run.mpr ⟨run, h, run_ordered h, Nat.le_refl _⟩)

/-! ## Characters -/

theorem not_mem_digits {c : Char} (hc : c.isDigit = false) (n : Nat) : c ∉ digits n := by
  intro h
  rw [isDigit_of_mem_digits h] at hc
  cases hc

theorem digits_ne_nil (n : Nat) : digits n ≠ [] := by
  rcases Nat.lt_or_ge n 10 with hlt | hge
  · rw [digits_of_lt hlt]
    exact List.cons_ne_nil _ _
  · rw [digits_of_ge hge]
    exact List.append_ne_nil_of_right_ne_nil _ (List.cons_ne_nil _ _)

theorem cutFirst?_of_not_mem {sep : Char} {text : List Char} (h : sep ∉ text) :
    cutFirst? sep text = none := by
  induction text with
  | nil => rfl
  | cons c text ih =>
      rw [List.mem_cons, not_or] at h
      rw [cutFirst?, if_neg (Ne.symm h.1), ih h.2]
      rfl

theorem cutFirst?_append {sep : Char} {before : List Char} (h : sep ∉ before)
    (after : List Char) : cutFirst? sep (before ++ sep :: after) = some (before, after) := by
  induction before with
  | nil => exact if_pos rfl
  | cons c before ih =>
      rw [List.mem_cons, not_or] at h
      rw [List.cons_append, cutFirst?, if_neg (Ne.symm h.1), ih h.2]
      rfl

/-! ## Pieces -/

theorem readNumber_digits (h : n < numberLimit) : readNumber (digits n) = .ok n := by
  have hread := readDigits_digits h
  have hplus : '+' ∉ digits n := not_mem_digits rfl n
  cases htext : digits n with
  | nil => exact absurd htext (digits_ne_nil n)
  | cons c rest =>
      rw [htext] at hread hplus
      have hc : c ≠ '+' := fun heq => hplus (heq ▸ List.mem_cons_self)
      unfold readNumber
      split
      · rename_i heq
        cases heq
      · rename_i heq
        exact absurd (List.cons.inj heq).1 hc
      · rename_i heq
        exact absurd (List.cons.inj heq).1 hc
      · exact hread

theorem numberOr_digits (fault : List Char → NumberFault → Fault) (h : n < numberLimit) :
    numberOr fault (digits n) = .ok n := by
  rw [numberOr, readNumber_digits h]

theorem readPart_of_ne_nil {part : List Char} (h : part ≠ []) :
    readPart part = match cutFirst? '-' part with
      | some (start, rest) => (readRange start rest).map some
      | none => (numberOr .single part).map fun n => some (.single n) := by
  unfold readPart
  split
  · exact absurd rfl h
  · rfl

theorem readPart_number (h : n < numberLimit) : readPart (digits n) = .ok (some (.single n)) := by
  rw [readPart_of_ne_nil (digits_ne_nil n), cutFirst?_of_not_mem (not_mem_digits rfl n)]
  simp only [numberOr_digits _ h]
  rfl

theorem readPart_range (hle : first ≤ last) (hlast : last < numberLimit) :
    readPart (digits first ++ '-' :: digits last) =
      .ok (some ⟨first, last, 1, hle, Nat.one_pos⟩) := by
  have hfirst : first < numberLimit := Nat.lt_of_le_of_lt hle hlast
  have hne : digits first ++ '-' :: digits last ≠ [] :=
    List.append_ne_nil_of_right_ne_nil _ (List.cons_ne_nil _ _)
  have hrest : readRest (digits last) = .ok (last, 1) := by
    rw [readRest, cutFirst?_of_not_mem (not_mem_digits rfl last)]
    simp only [numberOr_digits _ hlast]
    rfl
  have hrange : readRange (digits first) (digits last) =
      .ok ⟨first, last, 1, hle, Nat.one_pos⟩ := by
    rw [readRange, numberOr_digits _ hfirst, hrest]
    exact dif_pos hle
  rw [readPart_of_ne_nil hne, cutFirst?_append (not_mem_digits rfl first)]
  simp only [hrange]
  rfl

/-! ## Lists of pieces -/

theorem names_append (front back : List Item) (n : Nat) :
    names (front ++ back) n = (names front n || names back n) :=
  List.any_append

theorem readParts_append {front : List (List Char)} {items : List Item}
    (h : readParts front = .ok items) (back : List (List Char)) :
    readParts (front ++ back) = (readParts back).map (items ++ ·) := by
  induction front generalizing items with
  | nil =>
      obtain rfl := Except.ok.inj h
      cases hback : readParts back <;> simp [hback, Except.map]
  | cons part front ih =>
      rw [readParts] at h
      cases hpart : readPart part with
      | error fault =>
          rw [hpart] at h
          cases h
      | ok item? =>
          rw [hpart] at h
          cases hfront : readParts front with
          | error fault =>
              rw [hfront] at h
              cases h
          | ok others =>
              rw [hfront] at h
              obtain rfl := Except.ok.inj h
              rw [List.cons_append, readParts, hpart, ih hfront]
              cases readParts back with
              | error fault => rfl
              | ok more => exact congrArg Except.ok (List.append_assoc _ _ _).symm

/-- The pieces of a run name exactly the numbers from its first to its last. -/
theorem readParts_runPieces (hle : first ≤ last) (hlast : last < numberLimit) :
    ∃ items, readParts (runPieces (first, last)) = .ok items ∧
      ∀ n, names items n = true ↔ first ≤ n ∧ n ≤ last := by
  have hfirst : first < numberLimit := Nat.lt_of_le_of_lt hle hlast
  unfold runPieces
  simp only
  split
  · rename_i heq
    subst heq
    refine ⟨[.single first], ?_, fun n => ?_⟩
    · rw [readParts, readPart_number hfirst]
      rfl
    · simp only [names, List.any_cons, Item.lists_single, List.any_nil, Bool.or_false,
        decide_eq_true_eq]
      omega
  · split
    · rename_i hnext
      refine ⟨[.single first, .single last], ?_, fun n => ?_⟩
      · rw [readParts, readParts, readPart_number hfirst, readPart_number hlast]
        rfl
      · simp only [names, List.any_cons, Item.lists_single, List.any_nil, Bool.or_false,
          Bool.or_eq_true, decide_eq_true_eq]
        omega
    · refine ⟨[⟨first, last, 1, hle, Nat.one_pos⟩], ?_, fun n => ?_⟩
      · rw [readParts, readPart_range hle hlast]
        rfl
      · simp only [names, List.any_cons, List.any_nil, Bool.or_false, Item.lists_iff, Nat.mul_one]
        exact ⟨fun h => ⟨h.1, h.2.1⟩, fun h => ⟨h.1, h.2, n - first, by omega⟩⟩

theorem readParts_flatMap_runPieces {rs : List (Nat × Nat)}
    (h : ∀ run ∈ rs, run.1 ≤ run.2 ∧ run.2 < numberLimit) :
    ∃ items, readParts (rs.flatMap runPieces) = .ok items ∧
      ∀ n, names items n = true ↔ ∃ run ∈ rs, run.1 ≤ n ∧ n ≤ run.2 := by
  induction rs with
  | nil => exact ⟨[], rfl, fun n => by simp [names]⟩
  | cons run rs ih =>
      obtain ⟨hle, hlast⟩ := h run List.mem_cons_self
      obtain ⟨front, hfront, hrun⟩ := readParts_runPieces hle hlast
      obtain ⟨back, hback, hmore⟩ :=
        ih fun other hother => h other (List.mem_cons_of_mem run hother)
      refine ⟨front ++ back, ?_, fun n => ?_⟩
      · rw [List.flatMap_cons, readParts_append hfront, hback]
        rfl
      · rw [names_append, Bool.or_eq_true, hrun n, hmore n]
        simp only [List.mem_cons, exists_eq_or_imp]

/-! ## Whole lists -/

theorem not_mem_runPieces {piece : List Char} (h : piece ∈ runPieces run) : ',' ∉ piece := by
  have hdigits : ∀ n, ',' ∉ digits n := not_mem_digits rfl
  obtain ⟨first, last⟩ := run
  unfold runPieces at h
  simp only at h
  split at h
  · obtain rfl := List.mem_singleton.mp h
    exact hdigits first
  · split at h
    · rcases List.mem_cons.mp h with rfl | h
      · exact hdigits first
      · obtain rfl := List.mem_singleton.mp h
        exact hdigits last
    · obtain rfl := List.mem_singleton.mp h
      simp [hdigits first, hdigits last]

/-- A text that is put together from pieces without commas is read piece by piece. -/
theorem parse_intercalate {pieces : List (List Char)} (h : ∀ piece ∈ pieces, ',' ∉ piece) :
    parse (String.ofList ([','].intercalate pieces)) = readParts pieces := by
  rw [parse, String.toList_ofList]
  cases pieces with
  | nil => rfl
  | cons piece pieces => rw [List.splitOn_intercalate ',' h (List.cons_ne_nil _ _)]

theorem parse_print (h : ∀ n ∈ numbers, n < numberLimit) :
    ∃ items, parse (print numbers) = .ok items ∧ ∀ n, names items n = true ↔ n ∈ numbers := by
  obtain ⟨items, hread, hnames⟩ := readParts_flatMap_runPieces fun run hrun =>
    (⟨run_ordered hrun, run_lt h hrun⟩ : run.1 ≤ run.2 ∧ run.2 < numberLimit)
  refine ⟨items, ?_, fun n => (hnames n).trans mem_iff_exists_run.symm⟩
  have hcommas : ∀ piece ∈ (runs numbers).flatMap runPieces, ',' ∉ piece := by
    intro piece hpiece
    obtain ⟨run, -, hrun⟩ := List.mem_flatMap.mp hpiece
    exact not_mem_runPieces hrun
  rw [print, parse_intercalate hcommas, hread]

/-! ## Beyond a bound -/

/-- A list that names only numbers below the bound has nothing to say from there on. -/
theorem nextFrom?_eq_none {items : List Item} {bound : Nat}
    (h : ∀ n, names items n = true → n < bound) : nextFrom? items bound = none := by
  have hnone : items.filterMap (·.nextFrom? bound) = [] := by
    rw [List.filterMap_eq_nil_iff]
    intro item hitem
    cases hnext : item.nextFrom? bound with
    | none => rfl
    | some n =>
        obtain ⟨hlists, hle, -⟩ := Item.nextFrom?_eq_some hnext
        have := h n (List.any_eq_true.mpr ⟨item, hitem, hlists⟩)
        omega
  rw [nextFrom?, hnone]
  rfl

end CpuList

end ThreadAffinity
