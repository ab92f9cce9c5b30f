import Mathlib.Data.List.Nodup
import RateLedger.Proofs.Scans

/-!
# Scans of a store that changes

A page of a scan shows what the store holds when it is read, and before the next page is read the
store may have become any other one. A traversal is a scan that is asked for row after row, each
time of a store of its own. What it gave out and what still waits is in the order of the keys, and
the next page starts behind all of it, so nothing is given twice. A key that every page could have
shown is among the rows given, or waits, or is still ahead (`Traversal.Follows`): a full page ends
at its last row, and only a page that is not full ends the scan.
-/

namespace RateLedger

/-- Rows that come behind the last row of others can be put behind all of them. -/
theorem Ascending.append_behind {front back : List Row} (hfront : Ascending front)
    (hback : Ascending back)
    (h : ∀ row ∈ back, ∀ key ∈ front.getLast?.map (·.1), key < row.1) :
    Ascending (front ++ back) := by
  refine List.pairwise_append.2 ⟨hfront, hback, fun first hfirst row hrow => ?_⟩
  have hne : front ≠ [] := List.ne_nil_of_mem hfirst
  have hlast : (front.getLast hne).1 < row.1 :=
    h row hrow _ (by rw [List.getLast?_eq_some_getLast hne]; rfl)
  rw [← List.dropLast_concat_getLast hne] at hfront hfirst
  rcases List.mem_append.1 hfirst with hinit | hend
  · have hbefore : first.1 < (front.getLast hne).1 :=
      (List.pairwise_append.1 hfront).2.2 first hinit _ (List.mem_singleton_self _)
    exact List.lt_trans hbefore hlast
  · exact List.mem_singleton.1 hend ▸ hlast

namespace Table

variable {table : Table} {low : Bytes} {high last : Option Bytes}

theorem mem_rangeAfter_iff {row : Row} :
    row ∈ table.rangeAfter low high last ↔
      row ∈ table.rows ∧ inRange low high row.1 = true ∧ ∀ key ∈ last, key < row.1 := by
  simp only [rangeAfter, range, List.mem_filter, Option.all_eq_true, decide_eq_true_eq, and_assoc]
  rfl

theorem mem_page {size : Nat} {row : Row} (h : row ∈ table.page low high last size) :
    row ∈ table.rows ∧ inRange low high row.1 = true ∧ ∀ key ∈ last, key < row.1 :=
  mem_rangeAfter_iff.1 (List.mem_of_mem_take h)

theorem ascending_page (table : Table) (low : Bytes) (high last : Option Bytes) (size : Nat) :
    Ascending (table.page low high last size) :=
  (table.ascending_rangeAfter low high last).sublist (List.take_sublist _ _)

/-- A key of the range behind the last one is on the page, or the page is full and ends before. -/
theorem page_cases {key : Bytes} (size : Nat) (hthere : (table.lookup key).isSome = true)
    (hin : inRange low high key = true) (hlast : ∀ before ∈ last, before < key) :
    key ∈ (table.page low high last size).map (·.1) ∨
      ((table.page low high last size).length = size ∧
        ∀ row ∈ table.page low high last size, row.1 < key) := by
  obtain ⟨value, hvalue⟩ := Option.isSome_iff_exists.1 hthere
  have hmem : (key, value) ∈ table.rangeAfter low high last :=
    mem_rangeAfter_iff.2 ⟨mem_rows_iff_lookup.2 hvalue, hin, hlast⟩
  have hasc := table.ascending_rangeAfter low high last
  unfold page
  generalize table.rangeAfter low high last = all at hmem hasc ⊢
  rw [← List.take_append_drop size all] at hmem hasc
  obtain ⟨-, -, hbefore⟩ := List.pairwise_append.1 hasc
  rcases List.mem_append.1 hmem with hfront | hback
  · exact .inl (List.mem_map_of_mem hfront)
  · refine .inr ⟨?_, fun row hrow => hbefore row hrow _ hback⟩
    have hlength : 0 < (all.drop size).length := List.length_pos_of_mem hback
    rw [List.length_drop] at hlength
    rw [List.length_take]
    omega

end Table

namespace Scan

/-- Whether the next request to a scan reads a page. -/
def readsPage (scan : Scan) : Bool := scan.waiting.isEmpty && !scan.ended

/-- A scan of a batch that is not open is refused when it has to read a page. -/
theorem reads_next_closed {s : Store} {b : Nat} (h : s.isOpen b = false) (scan : Scan) :
    s.Reads (.batch b) (scan.next? (.batch b))
      (if scan.readsPage then .error .batchClosed else .ok (scan.next (s.table (.batch b)))) := by
  unfold next? next readsPage
  cases scan.waiting.isEmpty with
  | false => exact Store.Works.pure _
  | true =>
    cases scan.ended with
    | true => exact Store.Works.pure _
    | false => exact (Store.Works.checkOpen_closed h).bind_error.bind_error

/-- A scan that is answered gives what it has to give on the table of the view. -/
theorem next_of_perform {s : Store} {view : View} {scan : Scan} {answer : Option (Row × Scan)}
    (h : (s.perform (scan.next? view)).1 = .ok answer) : scan.next (s.table view) = answer := by
  by_cases hview : s.CanRead view
  · exact Except.ok.inj ((reads_next hview scan).of_ok h).1
  · cases view with
    | committed => exact absurd trivial hview
    | batch b =>
      have hclosed := ((reads_next_closed (Bool.eq_false_iff.2 hview) scan).of_ok h).1
      split at hclosed
      · cases hclosed
      · exact Except.ok.inj hclosed

end Scan

theorem Scan.withPage_nil {scan : Scan} (hwaiting : scan.waiting = []) :
    { scan.withPage [] with ended := scan.ended } = scan := by
  cases scan
  cases hwaiting
  rfl

/-- A scan that is asked for row after row, and what came of it. -/
structure Traversal where
  scan : Scan
  /-- The tables that pages were read from, in the order of the pages. -/
  tables : List Table
  /-- The rows given out, each with the table that its page was read from. -/
  given : List (Row × Table)
  /-- Whether the scan came to its end. -/
  finished : Bool

namespace Traversal

/-- A scan that was not asked for anything yet. -/
def start (scan : Scan) : Traversal := ⟨scan, [], [], false⟩

/-- The rows given out, in their order. -/
def rows (t : Traversal) : List Row := t.given.map (·.1)

/-- The table that the last page was read from. -/
def source (t : Traversal) : Table := t.tables.getLastD .empty

/-- The traversal with the table of a page, if the next request reads one. -/
def visiting (t : Traversal) (table : Table) : Traversal :=
  if t.scan.readsPage then { t with tables := t.tables ++ [table] } else t

/-- The traversal after an answer of its scan. -/
def answered (t : Traversal) : Option (Row × Scan) → Traversal
  | none => { t with finished := true }
  | some (row, scan) => { t with scan, given := t.given ++ [(row, t.source)] }

/-- Asks for one more row of a store, unless the scan came to its end. -/
def ask (view : View) (t : Traversal) (s : Store) : Except StoreFault Traversal :=
  if t.finished then .ok t
  else (s.perform (t.scan.next? view)).1.map (t.visiting (s.table view)).answered

/-- Asks for row after row, each time of another store. -/
def askAll (view : View) (t : Traversal) (stores : List Store) : Except StoreFault Traversal :=
  stores.foldlM (ask view) t

theorem tables_answered (t : Traversal) (answer : Option (Row × Scan)) :
    (t.answered answer).tables = t.tables := by
  cases answer <;> rfl

/-- A request that is answered leaves a finished traversal, and gives any other one what its scan
has to give on the table of the view. -/
theorem ask_cases {view : View} {t u : Traversal} {s : Store} (h : ask view t s = .ok u) :
    (t.finished = true ∧ u = t) ∨
      (t.finished = false ∧
        u = (t.visiting (s.table view)).answered (t.scan.next (s.table view))) := by
  unfold ask at h
  cases hfinished : t.finished with
  | true =>
    rw [hfinished, if_pos rfl] at h
    exact .inl ⟨rfl, (Except.ok.inj h).symm⟩
  | false =>
    rw [hfinished, if_neg Bool.false_ne_true] at h
    cases hanswer : (s.perform (t.scan.next? view)).1 with
    | error fault =>
      rw [hanswer] at h
      cases h
    | ok answer =>
      rw [hanswer, ← Scan.next_of_perform hanswer] at h
      exact .inr ⟨rfl, (Except.ok.inj h).symm⟩

theorem askAll_cons {view : View} {t u : Traversal} {s : Store} {rest : List Store}
    (h : askAll view t (s :: rest) = .ok u) :
    ∃ mid, ask view t s = .ok mid ∧ askAll view mid rest = .ok u := by
  rw [askAll, List.foldlM_cons] at h
  cases hfirst : ask view t s with
  | error fault =>
    rw [hfirst] at h
    cases h
  | ok mid =>
    rw [hfirst] at h
    exact ⟨mid, rfl, h⟩

/-- A key may come on a later page. -/
def Ahead (t : Traversal) (key : Bytes) : Prop :=
  t.finished = false ∧ t.scan.ended = false ∧ ∀ last ∈ t.scan.last, last < key

/-- What a traversal of a range keeps: the rows given and those that wait stand in the order of
their keys, each is a row of the table of its page, and no key that was there for every page is
missed. -/
structure Follows (t : Traversal) (low : Bytes) (high : Option Bytes) : Prop where
  bounds : t.scan.low = low ∧ t.scan.high = high
  size : 0 < t.scan.size
  ascending : Ascending (t.rows ++ t.scan.waiting)
  last : t.scan.last = (t.rows ++ t.scan.waiting).getLast?.map (·.1)
  within : ∀ row ∈ t.rows ++ t.scan.waiting, Table.inRange low high row.1 = true
  given : ∀ row table, (row, table) ∈ t.given → row ∈ table.rows ∧ table ∈ t.tables
  waiting : ∀ row ∈ t.scan.waiting, row ∈ t.source.rows ∧ t.source ∈ t.tables
  covers : ∀ key, Table.inRange low high key = true →
    (∀ table ∈ t.tables, (table.lookup key).isSome = true) →
    key ∈ (t.rows ++ t.scan.waiting).map (·.1) ∨ t.Ahead key
  ended : t.finished = true → t.scan.waiting = []

section Follows

variable {t : Traversal} {low : Bytes} {high : Option Bytes}

theorem follows_start (low : Bytes) (high : Option Bytes) {size : Nat} (hsize : 0 < size) :
    (start (.ofRange low high size)).Follows low high where
  bounds := ⟨rfl, rfl⟩
  size := hsize
  ascending := .nil
  last := rfl
  within := nofun
  given := nofun
  waiting := nofun
  covers _ _ _ := .inr ⟨rfl, rfl, nofun⟩
  ended := nofun

/-- The rows of a page come behind all rows before, and what the page leaves out comes behind it. -/
theorem Follows.fetched (h : t.Follows low high) (table : Table) (hfinished : t.finished = false)
    (hwaiting : t.scan.waiting = []) :
    ({ t with
      scan := t.scan.withPage (t.scan.nextPage table)
      tables := t.tables ++ [table] } : Traversal).Follows low high := by
  have hpage : t.scan.nextPage table = table.page low high t.scan.last t.scan.size := by
    rw [← h.bounds.1, ← h.bounds.2]
    rfl
  have hrows : t.rows ++ t.scan.waiting = t.rows := by rw [hwaiting, List.append_nil]
  have hlast : t.scan.last = t.rows.getLast?.map (·.1) := hrows ▸ h.last
  have hascending : Ascending t.rows := hrows ▸ h.ascending
  have hsource : (t.tables ++ [table]).getLastD .empty = table := List.getLastD_concat
  refine { bounds := h.bounds, size := h.size, ascending := ?_, last := ?_, within := ?_,
           given := ?_, waiting := ?_, covers := ?_, ended := ?_ }
  · change Ascending (t.rows ++ t.scan.nextPage table)
    rw [hpage]
    exact hascending.append_behind (table.ascending_page _ _ _ _)
      fun row hrow key hkey => (Table.mem_page hrow).2.2 key (hlast ▸ hkey)
  · change ((t.scan.nextPage table).getLast?.map (·.1)).or t.scan.last =
      (t.rows ++ t.scan.nextPage table).getLast?.map (·.1)
    rw [List.getLast?_append, Option.map_or, hlast]
  · change ∀ row ∈ t.rows ++ t.scan.nextPage table, _
    rw [hpage]
    intro row hrow
    rcases List.mem_append.1 hrow with hold | hnew
    · exact h.within row (hrows.symm ▸ hold)
    · exact (Table.mem_page hnew).2.1
  · intro row source hgiven
    obtain ⟨hrow, hsource⟩ := h.given row source hgiven
    exact ⟨hrow, List.mem_append_left _ hsource⟩
  · change ∀ row ∈ t.scan.nextPage table, row ∈ ((t.tables ++ [table]).getLastD .empty).rows ∧
      (t.tables ++ [table]).getLastD .empty ∈ t.tables ++ [table]
    rw [hsource, hpage]
    exact fun row hrow =>
      ⟨(Table.mem_page hrow).1, List.mem_append_right _ (List.mem_singleton_self _)⟩
  · change ∀ key, Table.inRange low high key = true → _ →
      key ∈ (t.rows ++ t.scan.nextPage table).map (·.1) ∨
        t.finished = false ∧
          decide ((t.scan.nextPage table).length < t.scan.size) = false ∧
          ∀ last ∈ ((t.scan.nextPage table).getLast?.map (·.1)).or t.scan.last, last < key
    rw [hpage, List.map_append]
    intro key hin hthere
    have hhere : (table.lookup key).isSome = true :=
      hthere table (List.mem_append_right _ (List.mem_singleton_self _))
    have hbefore := h.covers key hin fun other hother =>
      hthere other (List.mem_append_left _ hother)
    rcases hbefore with hgiven | ⟨-, -, hbehind⟩
    · exact .inl (List.mem_append_left _ (hrows ▸ hgiven))
    rcases Table.page_cases t.scan.size hhere hin hbehind with hon | ⟨hfull, hbefore⟩
    · exact .inl (List.mem_append_right _ hon)
    · refine .inr ⟨hfinished, by rw [hfull]; exact decide_eq_false (Nat.lt_irrefl _), ?_⟩
      intro last hmem
      rcases Option.or_eq_some_iff.1 hmem with hnew | ⟨-, hold⟩
      · obtain ⟨row, hrow, rfl⟩ := Option.map_eq_some_iff.1 hnew
        exact hbefore row (List.mem_of_getLast? hrow)
      · exact hbehind last hold
  · intro hdone
    exact absurd (hfinished.symm.trans hdone) Bool.false_ne_true

/-- A row that waits moves on to the rows given. -/
theorem Follows.popped (h : t.Follows low high) {row : Row} {rest : List Row}
    (hwaiting : t.scan.waiting = row :: rest) :
    ({ t with
      scan := { t.scan with waiting := rest }
      given := t.given ++ [(row, t.source)] } : Traversal).Follows low high := by
  have hrows : (t.given ++ [(row, t.source)]).map (·.1) ++ rest = t.rows ++ t.scan.waiting := by
    rw [List.map_append, hwaiting, List.append_assoc]
    rfl
  have hfirst := h.waiting row (hwaiting ▸ List.mem_cons_self)
  refine { bounds := h.bounds, size := h.size, ascending := hrows ▸ h.ascending,
           last := h.last.trans (hrows ▸ rfl), within := hrows ▸ h.within, given := ?_,
           waiting := ?_, covers := hrows ▸ h.covers, ended := ?_ }
  · intro other table hgiven
    rcases List.mem_append.1 hgiven with hold | hnew
    · exact h.given other table hold
    · obtain ⟨rfl, rfl⟩ := Prod.mk.inj (List.mem_singleton.1 hnew)
      exact hfirst
  · intro other hother
    exact h.waiting other (hwaiting ▸ List.mem_cons_of_mem _ hother)
  · intro hdone
    have hnil := h.ended hdone
    rw [hwaiting] at hnil
    cases hnil

/-- A scan comes to its end when its last page is given out. -/
theorem Follows.done (h : t.Follows low high) (hwaiting : t.scan.waiting = [])
    (hended : t.scan.ended = true) (ended : Bool) :
    ({ t with scan := { t.scan with ended }, finished := true } : Traversal).Follows low high where
  bounds := h.bounds
  size := h.size
  ascending := h.ascending
  last := h.last
  within := h.within
  given := h.given
  waiting := h.waiting
  covers key hin hthere := .inl <| (h.covers key hin hthere).resolve_right fun hahead =>
    Bool.false_ne_true (hahead.2.1.symm.trans hended)
  ended _ := hwaiting

/-- What a traversal keeps is kept by every answer, whatever table the next page is read from. -/
theorem Follows.next (h : t.Follows low high) (table : Table) (hfinished : t.finished = false) :
    ((t.visiting table).answered (t.scan.next table)).Follows low high := by
  unfold visiting Scan.readsPage Scan.next
  cases hwaiting : t.scan.waiting with
  | cons row rest =>
    have hpop : t.scan.pop = some (row, { t.scan with waiting := rest }) := by
      rw [Scan.pop, hwaiting]
    simp only [List.isEmpty_cons, Bool.false_and, Bool.false_eq_true, if_false, hpop]
    exact h.popped hwaiting
  | nil =>
    cases hended : t.scan.ended with
    | true => exact h.done hwaiting hended t.scan.ended
    | false =>
      have hnew := h.fetched table hfinished hwaiting
      simp only [List.isEmpty_nil, Bool.not_false, Bool.and_self, if_true, Bool.false_eq_true,
        if_false]
      cases hpage : t.scan.nextPage table with
      | nil =>
        rw [hpage] at hnew
        -- An empty page is not full: the scan has come to its end, though it does not keep it.
        have hclosed := hnew.done rfl (decide_eq_true h.size) t.scan.ended
        rw [Scan.withPage_nil hwaiting] at hclosed
        exact hclosed
      | cons row rest =>
        rw [hpage] at hnew
        exact hnew.popped rfl

theorem Follows.ask {view : View} {s : Store} {u : Traversal} (h : t.Follows low high)
    (hask : ask view t s = .ok u) : u.Follows low high := by
  rcases ask_cases hask with ⟨-, rfl⟩ | ⟨hfinished, rfl⟩
  · exact h
  · exact h.next (s.table view) hfinished

theorem Follows.askAll {view : View} {stores : List Store} {u : Traversal} (h : t.Follows low high)
    (hask : askAll view t stores = .ok u) : u.Follows low high := by
  induction stores generalizing t with
  | nil => exact Except.ok.inj hask ▸ h
  | cons s rest ih =>
    obtain ⟨mid, hfirst, hrest⟩ := askAll_cons hask
    exact ih (h.ask hfirst) hrest

/-- A scan that came to its end gave every key of its range that all pages could have shown, and
gave it once. -/
theorem Follows.count_eq_one (h : t.Follows low high) (hfinished : t.finished = true) {key : Bytes}
    (hin : Table.inRange low high key = true)
    (hthere : ∀ table ∈ t.tables, (table.lookup key).isSome = true) :
    (t.rows.map (·.1)).count key = 1 := by
  have hrows : t.rows ++ t.scan.waiting = t.rows := by rw [h.ended hfinished, List.append_nil]
  have hascending : Ascending t.rows := hrows ▸ h.ascending
  have hnodup : (t.rows.map (·.1)).Nodup := by
    refine List.pairwise_map.2 (hascending.imp fun hlt heq => ?_)
    rw [heq] at hlt
    exact List.lt_irrefl _ hlt
  rcases h.covers key hin hthere with hmem | hahead
  · exact List.count_eq_one_of_mem hnodup (hrows ▸ hmem)
  · exact absurd (hfinished.symm.trans hahead.1) Bool.false_ne_true.symm

end Follows

section Pages

variable {t u : Traversal} {view : View}

/-- A request reads at most one page, and reads it from its own store. -/
theorem tables_ask {s : Store} (h : ask view t s = .ok u) :
    u.tables = t.tables ∨ u.tables = t.tables ++ [s.table view] := by
  rcases ask_cases h with ⟨-, rfl⟩ | ⟨-, rfl⟩
  · exact .inl rfl
  · rw [tables_answered]
    unfold visiting
    split
    · exact .inr rfl
    · exact .inl rfl

theorem tables_askAll {stores : List Store} (h : askAll view t stores = .ok u) :
    ∃ read, read.Sublist (stores.map (·.table view)) ∧ u.tables = t.tables ++ read := by
  induction stores generalizing t with
  | nil => exact ⟨[], List.Sublist.refl _, Except.ok.inj h ▸ (List.append_nil _).symm⟩
  | cons s rest ih =>
    obtain ⟨mid, hfirst, hrest⟩ := askAll_cons h
    obtain ⟨read, hsub, hread⟩ := ih hrest
    rcases tables_ask hfirst with hold | hnew
    · exact ⟨read, hsub.cons _, hold ▸ hread⟩
    · refine ⟨s.table view :: read, hsub.cons_cons _, ?_⟩
      rw [hread, hnew, List.append_assoc]
      rfl

end Pages

section Steady

variable {t : Traversal} {view : View} {table : Table}

theorem askAll_finished (h : t.finished = true) (stores : List Store) :
    askAll view t stores = .ok t := by
  induction stores with
  | nil => rfl
  | cons s rest ih =>
    have hask : ask view t s = .ok t := if_pos h
    rw [askAll, List.foldlM_cons, hask]
    exact ih

theorem ask_ok {s : Store} (hreliable : s.IsReliable) (hview : s.CanRead view)
    (hfinished : t.finished = false) :
    ask view t s =
      .ok ((t.visiting (s.table view)).answered (t.scan.next (s.table view))) := by
  obtain ⟨events, hrun⟩ := (Scan.reads_next hview t.scan).perform hreliable
  rw [ask, hfinished, if_neg Bool.false_ne_true, hrun]
  rfl

@[simp] theorem rows_visiting (t : Traversal) (table : Table) :
    (t.visiting table).rows = t.rows := by
  unfold visiting
  split <;> rfl

@[simp] theorem finished_visiting (t : Traversal) (table : Table) :
    (t.visiting table).finished = t.finished := by
  unfold visiting
  split <;> rfl

@[simp] theorem rows_answered_some (t : Traversal) (row : Row) (scan : Scan) :
    (t.answered (some (row, scan))).rows = t.rows ++ [row] := List.map_append

/-- While the table stays, a traversal gives what its scan had to give, and ends. -/
theorem askAll_steady (hsize : 0 < t.scan.size) (hfinished : t.finished = false)
    {stores : List Store}
    (hsteady : ∀ s ∈ stores, s.IsReliable ∧ s.CanRead view ∧ s.table view = table)
    (hlength : (t.scan.remaining table).length < stores.length) :
    ∃ u, askAll view t stores = .ok u ∧ u.finished = true ∧
      u.rows = t.rows ++ t.scan.remaining table := by
  induction stores generalizing t with
  | nil => cases hlength
  | cons s rest ih =>
    obtain ⟨hreliable, hview, rfl⟩ := hsteady s List.mem_cons_self
    have hnext := Scan.remaining_next (s.table view) hsize
    have hask := ask_ok hreliable hview hfinished
    rw [askAll, List.foldlM_cons, hask]
    cases hcase : t.scan.next (s.table view) with
    | none =>
      rw [hcase] at hnext
      refine ⟨_, askAll_finished rfl rest, rfl, ?_⟩
      rw [hnext, List.append_nil]
      exact rows_visiting t _
    | some found =>
      obtain ⟨row, after⟩ := found
      rw [hcase] at hnext
      obtain ⟨hrest, hafter⟩ := hnext
      rw [hrest, List.length_cons, List.length_cons] at hlength
      have hstill : ((t.visiting (s.table view)).answered (some (row, after))).finished = false :=
        (finished_visiting t _).trans hfinished
      obtain ⟨u, hrun, hdone, hrows⟩ :=
        ih (hafter ▸ hsize) hstill
          (fun other hother => hsteady other (List.mem_cons_of_mem _ hother))
          (Nat.lt_of_succ_lt_succ hlength)
      refine ⟨u, hrun, hdone, ?_⟩
      rw [hrows, hrest, rows_answered_some, rows_visiting, List.append_assoc]
      rfl

end Steady

/-- A scan of a range, with pages of any size, of a store that may have become any other one before
each row: if it comes to its end, the rows given stand in the order of their keys and inside the
range, each is a row of the table that its page was read from, and a key that was there at every
page is given once. If the rows of the store stay as they are, it comes to its end and gives the
rows of the range. -/
theorem covers_changing_store (view : View) (low : Bytes) (high : Option Bytes) {size : Nat}
    (hsize : 0 < size) :
    (∀ stores u, askAll view (start (.ofRange low high size)) stores = .ok u → u.finished = true →
      u.tables.Sublist (stores.map (·.table view)) ∧
      Ascending u.rows ∧
      (∀ row ∈ u.rows, Table.inRange low high row.1 = true) ∧
      (∀ row table, (row, table) ∈ u.given → row ∈ table.rows ∧ table ∈ u.tables) ∧
      ∀ key, Table.inRange low high key = true →
        (∀ table ∈ u.tables, (table.lookup key).isSome = true) →
        (u.rows.map (·.1)).count key = 1) ∧
    ∀ table stores, (∀ s ∈ stores, s.IsReliable ∧ s.CanRead view ∧ s.table view = table) →
      (table.range low high).length < stores.length →
      ∃ u, askAll view (start (.ofRange low high size)) stores = .ok u ∧ u.finished = true ∧
        u.rows = table.range low high := by
  constructor
  · intro stores u hask hfinished
    have hfollows : u.Follows low high := (follows_start low high hsize).askAll hask
    obtain ⟨read, hread, htables⟩ := tables_askAll hask
    have hascending : Ascending u.rows :=
      hfollows.ascending.sublist (List.sublist_append_left _ _)
    exact ⟨htables ▸ hread, hascending,
      fun row hrow => hfollows.within row (List.mem_append_left _ hrow), hfollows.given,
      fun key hin hthere => hfollows.count_eq_one hfinished hin hthere⟩
  · intro table stores hsteady hlength
    have hremaining : (Scan.ofRange low high size).remaining table = table.range low high := by
      simp [Scan.remaining, Scan.ofRange, Table.rangeAfter]
    obtain ⟨u, hask, hfinished, hrows⟩ := askAll_steady (t := start (.ofRange low high size))
      hsize rfl hsteady (hremaining.symm ▸ hlength)
    exact ⟨u, hask, hfinished, hrows.trans hremaining⟩

/-- A store that no engine call fails in, with some rows. -/
def holding (keys : List Bytes) : Store :=
  { Store.fresh with committed := keys.foldl (fun table key => table.insert key []) .empty }

/-- A store before each row of a scan with pages of two rows. After the first page its last row is
gone and one came behind it, after the second one nothing is left of that page. -/
def shrinking : List Store :=
  List.replicate 2 (holding [[1], [2], [3], [4]]) ++
    List.replicate 2 (holding [[1], [1, 5], [2, 5], [3], [4]]) ++
    List.replicate 2 (holding [[1], [4]])

theorem covers_shrinking_store :
    0 < 2 ∧ ∃ u, askAll .committed (start (.ofRange [1] none 2)) shrinking = .ok u ∧
      u.finished = true ∧
      u.rows.map (·.1) = [[1], [2], [2, 5], [3], [4]] ∧
      Ascending u.rows ∧ (u.rows.map (·.1)).count [4] = 1 := by
  have hsize : 0 < 2 := by decide
  refine ⟨hsize, _, rfl, rfl, rfl, ?_⟩
  have hcovers := (covers_changing_store .committed [1] none hsize).1 shrinking _ rfl rfl
  exact ⟨hcovers.2.1, hcovers.2.2.2.2 [4] rfl (by decide)⟩

end Traversal

end RateLedger
