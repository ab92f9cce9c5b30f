import RateLedger.Bytes

/-!
# Tables

A table is a finite map from keys to values whose rows stand in the order of their keys, without
repetition. The order is part of the type. Main statements: after a write the key holds the value
and every other key what it held (`lookup_insert`), after a removal it holds nothing
(`lookup_erase`), and a table is determined by what its keys hold (`ext_lookup`).
-/

namespace RateLedger

/-- A key with its value. -/
abbrev Row := Bytes × Bytes

/-- Whether the rows stand in the order of their keys, without repetition. -/
def Ascending (rows : List Row) : Prop := rows.Pairwise fun a b => a.1 < b.1

/-- A table of rows. -/
structure Table where
  rows : List Row
  ascending : Ascending rows

namespace Table

/-- The table without rows. -/
def empty : Table := ⟨[], .nil⟩

/-- The rows with one more, or with a new value for its key. -/
def insertRow (key value : Bytes) : List Row → List Row
  | [] => [(key, value)]
  | row :: rest =>
    if key < row.1 then (key, value) :: row :: rest
    else if key = row.1 then (key, value) :: rest
    else row :: insertRow key value rest

theorem mem_insertRow {key value : Bytes} {rows : List Row} {row : Row}
    (h : row ∈ insertRow key value rows) : row = (key, value) ∨ row ∈ rows := by
  induction rows with
  | nil => simpa [insertRow] using h
  | cons first rest ih =>
    unfold insertRow at h
    split at h
    · simpa using h
    · split at h
      · rcases List.mem_cons.1 h with h | h
        · exact .inl h
        · exact .inr (List.mem_cons_of_mem _ h)
      · rcases List.mem_cons.1 h with h | h
        · exact .inr (h ▸ List.mem_cons_self)
        · exact (ih h).imp_right (List.mem_cons_of_mem _)

theorem lt_of_not_lt_of_ne {a b : Bytes} (h : ¬a < b) (hne : a ≠ b) : b < a := by
  rcases List.le_iff_lt_or_eq.1 (List.not_lt.1 h) with h | h
  · exact h
  · exact absurd h.symm hne

theorem ascending_insertRow {key value : Bytes} {rows : List Row} (h : Ascending rows) :
    Ascending (insertRow key value rows) := by
  induction rows with
  | nil => simp [insertRow, Ascending]
  | cons first rest ih =>
    obtain ⟨hfirst, hrest⟩ := List.pairwise_cons.1 h
    unfold insertRow
    split
    · rename_i hlt
      refine List.pairwise_cons.2 ⟨fun row hrow => ?_, h⟩
      rcases List.mem_cons.1 hrow with rfl | hrow
      · exact hlt
      · exact List.lt_trans hlt (hfirst _ hrow)
    · split
      · rename_i heq
        exact List.pairwise_cons.2 ⟨fun row hrow => heq ▸ hfirst row hrow, hrest⟩
      · rename_i hlt hne
        refine List.pairwise_cons.2 ⟨fun row hrow => ?_, ih hrest⟩
        rcases mem_insertRow hrow with rfl | hrow
        · exact lt_of_not_lt_of_ne hlt hne
        · exact hfirst _ hrow

/-- The table in which the key holds the value. -/
def insert (table : Table) (key value : Bytes) : Table :=
  ⟨insertRow key value table.rows, ascending_insertRow table.ascending⟩

/-- The table in which the key holds nothing. -/
def erase (table : Table) (key : Bytes) : Table :=
  ⟨table.rows.filter (·.1 != key), table.ascending.filter _⟩

/-- The value that a key holds. -/
def lookup (table : Table) (key : Bytes) : Option Bytes :=
  (table.rows.find? (·.1 == key)).map (·.2)

/-- Whether a key lies from `low` on and, if there is a bound, below `high`. -/
def inRange (low : Bytes) (high : Option Bytes) (key : Bytes) : Bool :=
  decide (low ≤ key) && high.all fun bound => decide (key < bound)

/-- The rows whose keys lie in a range. -/
def range (table : Table) (low : Bytes) (high : Option Bytes) : List Row :=
  table.rows.filter fun row => inRange low high row.1

/-- The rows of a range that come after a key, or all of them. -/
def rangeAfter (table : Table) (low : Bytes) (high : Option Bytes) (last : Option Bytes) :
    List Row :=
  (table.range low high).filter fun row => last.all fun key => decide (key < row.1)

/-- The first rows of a range after a key, at most `size`. -/
def page (table : Table) (low : Bytes) (high : Option Bytes) (last : Option Bytes) (size : Nat) :
    List Row :=
  (table.rangeAfter low high last).take size

@[ext] theorem ext_rows {a b : Table} (h : a.rows = b.rows) : a = b := by
  cases a; cases b; simp_all

theorem lookup_insert (table : Table) (key value other : Bytes) :
    (table.insert key value).lookup other =
      if other = key then some value else table.lookup other := by
  simp only [lookup, insert]
  induction table.rows with
  | nil => by_cases h : other = key <;> simp [insertRow, h, Ne.symm]
  | cons first rest ih =>
    unfold insertRow
    split
    · by_cases h : other = key
      · simp [h]
      · simp [List.find?_cons, h, Ne.symm h]
    · split
      · rename_i heq
        by_cases h : other = key
        · simp [h]
        · simp [h, Ne.symm h, ← heq]
      · rename_i hne
        by_cases h : first.1 = other
        · have hk : ¬other = key := fun e => hne (e ▸ h.symm)
          simp [h, hk]
        · simpa [List.find?_cons, h] using ih

theorem lookup_erase (table : Table) (key other : Bytes) :
    (table.erase key).lookup other = if other = key then none else table.lookup other := by
  simp only [lookup, erase, List.find?_filter]
  by_cases h : other = key
  · subst h
    rw [if_pos rfl, Option.map_eq_none_iff, List.find?_eq_none]
    simp
  · rw [if_neg h]
    congr 2
    funext row
    by_cases hr : row.1 = other
    · simp [hr, h]
    · simp [hr]

theorem mem_rows_iff_lookup {table : Table} {key value : Bytes} :
    (key, value) ∈ table.rows ↔ table.lookup key = some value := by
  have hasc := table.ascending
  unfold lookup
  generalize table.rows = rows at hasc
  induction rows with
  | nil => simp
  | cons first rest ih =>
    obtain ⟨hfirst, hrest⟩ := List.pairwise_cons.1 hasc
    by_cases h : first.1 = key
    · rw [List.find?_cons_of_pos (by simp [h])]
      simp only [List.mem_cons, Option.map_some, Option.some.injEq]
      constructor
      · rintro (rfl | hmem)
        · rfl
        · exact absurd (hfirst _ hmem) (h ▸ List.lt_irrefl _)
      · rintro rfl
        exact .inl (by rw [← h])
    · rw [List.find?_cons_of_neg (by simp [h]), List.mem_cons]
      exact (or_iff_right fun e => h (by rw [← e])).trans (ih hrest)

/-- A table is determined by what its keys hold. -/
theorem ext_lookup {a b : Table} (h : ∀ key, a.lookup key = b.lookup key) : a = b := by
  apply ext_rows
  have hmem : ∀ row, row ∈ a.rows ↔ row ∈ b.rows := fun row => by
    rw [show row = (row.1, row.2) from rfl, mem_rows_iff_lookup, mem_rows_iff_lookup, h]
  have ha := a.ascending
  have hb := b.ascending
  revert hmem ha hb
  generalize a.rows = l
  generalize b.rows = r
  intro hmem ha hb
  have irrefl {rows : List Row} (hr : Ascending rows) : rows.Nodup :=
    List.Pairwise.imp (by intro x y hlt e; exact List.lt_irrefl x.1 (e ▸ hlt)) hr
  refine List.Perm.eq_of_pairwise (fun x y _ _ hxy hyx => ?_) ha hb
    ((List.perm_ext_iff_of_nodup (irrefl ha) (irrefl hb)).2 hmem)
  exact absurd (List.lt_trans hxy hyx) (List.lt_irrefl _)

end Table

end RateLedger
