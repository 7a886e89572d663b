/-!
# Open editors by number

A table keeps one editor per number, in increasing order of the numbers. Its view
is `Table.get?`, and each operation is described by what it does to the view.
-/

namespace ThreadAffinity

namespace Session

/-- Editors by number, in increasing order of the numbers. -/
structure Table (E : Type) where
  rows : List (Int × E)
  increasing : rows.Pairwise (·.1 < ·.1)

namespace Table

variable {E : Type}

/-! ## Rows -/

def lookup? (id : Int) : List (Int × E) → Option E
  | [] => none
  | row :: rows => if row.1 = id then some row.2 else lookup? id rows

/-- The rows with an editor put where its number belongs, in place of the one that
had the number before. -/
def place (id : Int) (editor : E) : List (Int × E) → List (Int × E)
  | [] => [(id, editor)]
  | row :: rows =>
    if id < row.1 then (id, editor) :: row :: rows
    else if id = row.1 then (id, editor) :: rows
    else row :: place id editor rows

theorem mem_place {id : Int} {editor : E} {rows : List (Int × E)} {row : Int × E}
    (h : row ∈ place id editor rows) : row = (id, editor) ∨ row ∈ rows := by
  induction rows with
  | nil => exact .inl (List.mem_singleton.mp h)
  | cons first rows ih =>
    simp only [place] at h
    split at h
    · exact List.mem_cons.mp h
    · split at h
      · exact (List.mem_cons.mp h).imp_right (List.mem_cons_of_mem _)
      · rcases List.mem_cons.mp h with h | h
        · exact .inr (h ▸ List.mem_cons_self)
        · exact (ih h).imp_right (List.mem_cons_of_mem _)

theorem pairwise_place (id : Int) (editor : E) {rows : List (Int × E)}
    (h : rows.Pairwise (·.1 < ·.1)) : (place id editor rows).Pairwise (·.1 < ·.1) := by
  induction rows with
  | nil => exact List.pairwise_singleton _ _
  | cons first rows ih =>
    obtain ⟨hfirst, hrows⟩ := List.pairwise_cons.mp h
    simp only [place]
    split
    · rename_i hlt
      refine List.pairwise_cons.mpr ⟨fun row hrow => ?_, h⟩
      rcases List.mem_cons.mp hrow with rfl | hrow
      · exact hlt
      · exact Int.lt_trans hlt (hfirst row hrow)
    · split
      · rename_i heq
        exact List.pairwise_cons.mpr ⟨fun row hrow => heq ▸ hfirst row hrow, hrows⟩
      · refine List.pairwise_cons.mpr ⟨fun row hrow => ?_, ih hrows⟩
        rcases mem_place hrow with rfl | hrow
        · simp only; omega
        · exact hfirst row hrow

/-! ## Tables -/

def empty : Table E := ⟨[], .nil⟩

def get? (table : Table E) (id : Int) : Option E := lookup? id table.rows

def put (table : Table E) (id : Int) (editor : E) : Table E :=
  ⟨place id editor table.rows, pairwise_place id editor table.increasing⟩

def erase (table : Table E) (id : Int) : Table E :=
  ⟨table.rows.filter (·.1 ≠ id), table.increasing.filter _⟩

/-- The open editors in increasing order of their numbers. -/
def editors (table : Table E) : List E := table.rows.map (·.2)

/-! ## The view -/

@[simp] theorem get?_empty (id : Int) : (empty : Table E).get? id = none := rfl

theorem lookup?_place (id : Int) (editor : E) (rows : List (Int × E)) (other : Int) :
    lookup? other (place id editor rows) =
      if id = other then some editor else lookup? other rows := by
  induction rows with
  | nil => simp [place, lookup?]
  | cons first rows ih =>
    simp only [place]
    split
    · simp [lookup?]
    · split
      · rename_i heq
        simp only [lookup?, ← heq]
        split <;> rfl
      · rename_i hne
        simp only [lookup?, ih]
        split
        · rename_i hf
          rw [if_neg (fun h : id = other => hne (h.trans hf.symm))]
        · rfl

@[simp] theorem get?_put (table : Table E) (id : Int) (editor : E) (other : Int) :
    (table.put id editor).get? other = if id = other then some editor else table.get? other :=
  lookup?_place id editor table.rows other

theorem lookup?_filter (id : Int) (rows : List (Int × E)) (other : Int) :
    lookup? other (rows.filter (·.1 ≠ id)) =
      if id = other then none else lookup? other rows := by
  induction rows with
  | nil => simp [lookup?]
  | cons first rows ih =>
    by_cases hf : first.1 = id
    · simp only [List.filter_cons, hf, ne_eq, not_true, decide_false, Bool.false_eq_true,
        if_false, ih, lookup?]
      split <;> rfl
    · simp only [List.filter_cons, hf, ne_eq, not_false_eq_true, decide_true, if_true, lookup?, ih]
      split
      · rename_i ho
        rw [if_neg (fun h : id = other => hf (ho.trans h.symm))]
      · rfl

@[simp] theorem get?_erase (table : Table E) (id other : Int) :
    (table.erase id).get? other = if id = other then none else table.get? other :=
  lookup?_filter id table.rows other

end Table

end Session

end ThreadAffinity
