import RateLedger.Proofs.Steps
import RateLedger.Store.History

/-!
# Scans of a table that does not change

While the rows stay as they are, the pages of a scan fit together: what a scan has still to give is
the rows that wait and, unless the last page came, the rows of the range after the last key
(`Scan.remaining`). Reading a page keeps it, giving out a row takes off its first row. So a fold
over a scan is a fold over the rows of its range, and a reader of observations gives what the rows
of the range hold.
-/

namespace RateLedger

/-- The rows of a table that stand behind one of them. -/
theorem Ascending.filter_lt {front back : List Row} {row : Row}
    (h : Ascending (front ++ row :: back)) :
    (front ++ row :: back).filter (fun other => decide (row.1 < other.1)) = back := by
  obtain ⟨-, hback, hfront⟩ := List.pairwise_append.1 h
  rw [List.filter_append, List.filter_eq_nil_iff.2, List.nil_append, List.filter_cons_of_neg,
    List.filter_eq_self.2]
  · intro other hother
    exact decide_eq_true ((List.pairwise_cons.1 hback).1 other hother)
  · simp [List.lt_irrefl]
  · intro other hother hlt
    have hless := hfront other hother row List.mem_cons_self
    exact List.lt_irrefl _ (List.lt_trans hless (of_decide_eq_true hlt))

namespace Table

theorem ascending_rangeAfter (table : Table) (low : Bytes) (high last : Option Bytes) :
    Ascending (table.rangeAfter low high last) :=
  (table.ascending.filter _).filter _

theorem length_rangeAfter_le (table : Table) (low : Bytes) (high last : Option Bytes) :
    (table.rangeAfter low high last).length ≤ table.rows.length :=
  Nat.le_trans (List.length_filter_le _ _) (List.length_filter_le _ _)

/-- The rows after a row of the range come behind it there. -/
theorem rangeAfter_of_eq_append {table : Table} {low : Bytes} {high last : Option Bytes}
    {front back : List Row} {row : Row}
    (h : table.rangeAfter low high last = front ++ row :: back) :
    table.rangeAfter low high (some row.1) = back := by
  have hasc := table.ascending_rangeAfter low high last
  have hlast : last.all (fun key => decide (key < row.1)) = true := by
    have hmem : row ∈ table.rangeAfter low high last := by simp [h]
    exact (List.mem_filter.1 hmem).2
  calc table.rangeAfter low high (some row.1)
      = (table.rangeAfter low high last).filter fun other => decide (row.1 < other.1) := by
        unfold rangeAfter
        rw [List.filter_filter]
        refine List.filter_congr fun other _ => ?_
        cases last with
        | none => simp
        | some key =>
          have hkey : key < row.1 := by simpa using hlast
          by_cases hlt : row.1 < other.1
          · simp [hlt, List.lt_trans hkey hlt]
          · simp [hlt]
    _ = back := by
        rw [h]
        exact Ascending.filter_lt (h ▸ hasc)

end Table

namespace Scan

/-- The next row of a scan of a table, and the scan after it. -/
def next (scan : Scan) (table : Table) : Option (Row × Scan) :=
  if scan.waiting.isEmpty then
    if scan.ended then none else (scan.withPage (scan.nextPage table)).pop
  else scan.pop

/-- The rows that a scan of a table has still to give. -/
def remaining (scan : Scan) (table : Table) : List Row :=
  scan.waiting ++ if scan.ended then [] else table.rangeAfter scan.low scan.high scan.last

@[simp] theorem size_withPage (scan : Scan) (rows : List Row) :
    (scan.withPage rows).size = scan.size := rfl

theorem remaining_pop (scan : Scan) (table : Table) :
    match scan.pop with
    | none => scan.waiting = []
    | some (row, after) => scan.remaining table = row :: after.remaining table ∧
        after.size = scan.size := by
  unfold pop remaining
  cases scan.waiting with
  | nil => rfl
  | cons row rest => exact ⟨rfl, rfl⟩

/-- Reading a page keeps what a scan has to give. -/
theorem remaining_withPage {scan : Scan} (table : Table) (hsize : 0 < scan.size)
    (hwaiting : scan.waiting = []) (hended : scan.ended = false) :
    (scan.withPage (scan.nextPage table)).remaining table = scan.remaining table := by
  have hpage : scan.nextPage table =
      (table.rangeAfter scan.low scan.high scan.last).take scan.size := rfl
  unfold remaining withPage
  simp only [hwaiting, hended, List.nil_append, Bool.false_eq_true, if_false, hpage,
    decide_eq_true_eq]
  generalize hall : table.rangeAfter scan.low scan.high scan.last = all
  by_cases hshort : (all.take scan.size).length < scan.size
  · -- a page that is not full holds all that was left
    have hle : all.length ≤ scan.size := by
      rw [List.length_take] at hshort
      omega
    rw [if_pos hshort, List.append_nil, List.take_of_length_le hle]
  · have hne : all.take scan.size ≠ [] := by
      intro hnil
      rw [hnil] at hshort
      exact hshort hsize
    have hsplit : all = (all.take scan.size).dropLast ++
        (all.take scan.size).getLast hne :: all.drop scan.size := by
      rw [List.append_cons, List.dropLast_concat_getLast, List.take_append_drop]
    have hrest := Table.rangeAfter_of_eq_append (hall.trans hsplit)
    rw [if_neg hshort, List.getLast?_eq_some_getLast hne, Option.map_some, Option.some_or, hrest,
      List.take_append_drop]

theorem remaining_next {scan : Scan} (table : Table) (hsize : 0 < scan.size) :
    match scan.next table with
    | none => scan.remaining table = []
    | some (row, after) => scan.remaining table = row :: after.remaining table ∧
        after.size = scan.size := by
  unfold next
  cases hwaiting : scan.waiting with
  | nil =>
    cases hended : scan.ended with
    | true => simp [remaining, hwaiting, hended]
    | false =>
      have hpop := remaining_pop (scan.withPage (scan.nextPage table)) table
      have hkeep := remaining_withPage table hsize hwaiting hended
      simp only [List.isEmpty_nil, if_true, Bool.false_eq_true, if_false]
      cases hcase : (scan.withPage (scan.nextPage table)).pop with
      | none =>
        rw [hcase] at hpop
        have hpage : scan.nextPage table = [] := hpop
        rw [← hkeep, hpage]
        simp [remaining, withPage, hsize]
      | some found =>
        rw [hcase, hkeep] at hpop
        exact hpop
  | cons row rest =>
    have hpop := remaining_pop scan table
    simpa [pop, hwaiting] using hpop

section

variable {s : Store} {view : View}

theorem reads_next (h : s.CanRead view) (scan : Scan) :
    s.Reads view (scan.next? view) (.ok (scan.next (s.table view))) := by
  unfold next? next
  cases scan.waiting.isEmpty with
  | false => exact Store.Works.pure _
  | true =>
    cases scan.ended with
    | true => exact Store.Works.pure _
    | false => exact Store.Works.bind (Store.reads_query h scan.nextPage) (Store.Works.pure _)

/-- A fold over a scan, with steps enough, is the fold over the rows that it has to give. -/
theorem reads_foldFrom (h : s.CanRead view) (step : α → Row → Except StoreFault α) {fuel : Nat}
    {scan : Scan} (hsize : 0 < scan.size) (acc : α)
    (hfuel : (scan.remaining (s.table view)).length < fuel) :
    s.Reads view (foldFrom view step fuel scan acc)
      ((scan.remaining (s.table view)).foldlM step acc) := by
  induction fuel generalizing scan acc with
  | zero => omega
  | succ fuel ih =>
    unfold foldFrom
    have hnext := remaining_next (s.table view) hsize
    have hread := reads_next h scan
    cases hcase : scan.next (s.table view) with
    | none =>
      rw [hcase] at hnext hread
      rw [hnext]
      exact hread.bind (Store.Works.pure acc)
    | some found =>
      obtain ⟨row, after⟩ := found
      rw [hcase] at hnext hread
      obtain ⟨hrest, hafter⟩ := hnext
      rw [hrest, List.length_cons] at hfuel
      rw [hrest, List.foldlM_cons]
      refine hread.bind (Store.Works.ofExcept_bind fun value _ => ?_)
      exact ih (hafter ▸ hsize) value (by omega)

theorem length_remaining_lt_steps (scan : Scan) (table : Table) :
    (scan.remaining table).length < scan.steps table := by
  have hrows := table.length_rangeAfter_le scan.low scan.high scan.last
  unfold remaining steps
  rw [List.length_append]
  split
  · rw [List.length_nil]
    omega
  · omega

theorem reads_fold (h : s.CanRead view) (step : α → Row → Except StoreFault α) (scan : Scan)
    (hsize : 0 < scan.size) (start : α) :
    s.Reads view (scan.fold view step start)
      ((scan.remaining (s.table view)).foldlM step start) := by
  refine Store.Works.get_bind fun trace => ?_
  rw [Store.table_withTrace]
  exact reads_foldFrom h step hsize start (length_remaining_lt_steps scan _)

end

theorem remaining_ofPrefix (pre : Bytes) (table : Table) :
    (ofPrefix pre).remaining table = table.range pre (Key.upperBound? pre) := by
  simp [remaining, ofPrefix, ofRange, Table.rangeAfter]

end Scan

end RateLedger
