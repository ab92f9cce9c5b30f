import RateLedger.Proofs.Scans

/-!
# What a reader of observations finds

A reader asks its scan for rows and classifies them one by one, until it has as many observations as
were wanted or comes to the end. On a table that does not change this is a fold over the rows of the
range (`Cursor.reads_toList`). Where every row is under a key of its own record, the reader finds
exactly the records of the rows under their own keys.
-/

namespace RateLedger

namespace Cursor

/-- What a request for observations found and how it ended, or why it failed. -/
def settle (pull : Pull) : Except StoreFault (List Observation × Ending) :=
  match pull.ending with
  | .full => .ok (pull.items, .full)
  | .exhausted => .ok (pull.items, .exhausted)
  | .failed fault => .error fault

/-- A request for observations, as a step that fails where the request does. -/
def settled (request : StateM Store Pull) : StoreM (List Observation × Ending) :=
  ExceptT.mk (settle <$> request)

/-- The observations of some rows, read until there are as many as wanted; `found` holds those
before, reversed. -/
def readRows (wanted : Option Nat) :
    List Row → List Observation → Except StoreFault (List Observation × Ending)
  | rows, found =>
    if wanted = some found.length then .ok (found.reverse, .full)
    else
      match rows with
      | [] => .ok (found.reverse, .exhausted)
      | row :: rest => classify row >>= fun
        | none => readRows wanted rest found
        | some x => readRows wanted rest (x :: found)

theorem perform_request (s : Store) (request : StateM Store Pull) :
    s.perform (ExceptT.mk (Except.ok <$> request)) =
      (.ok (request.run s).1, (request.run s).2) := rfl

theorem perform_settled (s : Store) (request : StateM Store Pull) :
    s.perform (settled request) = (settle (request.run s).1, (request.run s).2) := rfl

theorem perform_settled_bind (s : Store) (step : StoreM α)
    (next : Except StoreFault α → StateM Store Pull) :
    s.perform (settled (step.run >>= next)) =
      (s.perform step).2.perform (settled (next (s.perform step).1)) := rfl

theorem settled_pullFrom_of_eq {wanted : Option Nat} {found : List Observation}
    (h : wanted = some found.length) (fuel : Nat) (cursor : Cursor) :
    settled (pullFrom wanted (fuel + 1) cursor found) = pure (found.reverse, .full) := by
  rw [pullFrom, if_pos h]
  rfl

/-- One row of a reader. -/
theorem settled_pullFrom_of_ne {wanted : Option Nat} {found : List Observation}
    (h : wanted ≠ some found.length) (fuel : Nat) (cursor : Cursor) :
    settled (pullFrom wanted (fuel + 1) cursor found) =
      cursor.scan.next? cursor.view >>= fun
        | none => pure (found.reverse, .exhausted)
        | some (row, scan) => ExceptT.mk (pure (classify row)) >>= fun
          | none => settled (pullFrom wanted fuel { cursor with scan } found)
          | some x => settled (pullFrom wanted fuel { cursor with scan } (x :: found)) := by
  funext s
  rw [pullFrom, if_neg h]
  show s.perform (settled (_ >>= _)) = s.perform (_ >>= _)
  rw [perform_settled_bind, Store.perform_bind]
  rcases s.perform (cursor.scan.next? cursor.view) with ⟨fault | _ | ⟨row, scan⟩, t⟩
  · rfl
  · rfl
  · dsimp only
    rw [Store.perform_bind]
    rcases classify row with fault | _ | x
    · rfl
    · rfl
    · rfl

section

variable {s : Store}

theorem reads_pullFrom {wanted : Option Nat} {fuel : Nat} (cursor : Cursor)
    (h : s.CanRead cursor.view) (hsize : 0 < cursor.scan.size) (found : List Observation)
    (hfuel : (cursor.scan.remaining (s.table cursor.view)).length < fuel) :
    s.Reads cursor.view (settled (pullFrom wanted fuel cursor found))
      (readRows wanted (cursor.scan.remaining (s.table cursor.view)) found) := by
  -- The fuel is more than the rows that are left, and every row that is read uses one of it.
  induction fuel generalizing cursor found with
  | zero => omega
  | succ fuel ih =>
    by_cases hfull : wanted = some found.length
    · rw [settled_pullFrom_of_eq hfull]
      unfold readRows
      rw [if_pos hfull]
      exact Store.Works.pure _
    rw [settled_pullFrom_of_ne hfull]
    unfold readRows
    rw [if_neg hfull]
    have hnext := Scan.remaining_next (s.table cursor.view) hsize
    have hread := Scan.reads_next h cursor.scan
    cases hcase : cursor.scan.next (s.table cursor.view) with
    | none =>
      rw [hcase] at hnext hread
      rw [hnext]
      exact hread.bind (Store.Works.pure _)
    | some out =>
      obtain ⟨row, after⟩ := out
      rw [hcase] at hnext hread
      obtain ⟨hrest, hafter⟩ := hnext
      rw [hrest, List.length_cons] at hfuel
      rw [hrest]
      refine hread.bind (Store.Works.ofExcept_bind fun x _ => ?_)
      have hpos : 0 < after.size := hafter ▸ hsize
      cases x with
      | none =>
        exact ih { cursor with scan := after } h hpos found
          (Nat.lt_of_succ_lt_succ hfuel)
      | some x =>
        exact ih { cursor with scan := after } h hpos (x :: found)
          (Nat.lt_of_succ_lt_succ hfuel)

/-- What a request to a reader gives on a table. -/
def readTable (cursor : Cursor) (wanted : Option Nat) (table : Table) :
    Except StoreFault (List Observation × Ending) :=
  if cursor.finished then .ok ([], if wanted = some 0 then .full else .exhausted)
  else readRows wanted (cursor.scan.remaining table) []

theorem settled_pull_of_finished {cursor : Cursor} (h : cursor.finished = true)
    (wanted : Option Nat) :
    settled (cursor.pull wanted) =
      ExceptT.mk (pure (.ok ([], if wanted = some 0 then .full else .exhausted))) := by
  unfold pull
  rw [h]
  by_cases hnone : wanted = some 0
  · rw [if_pos hnone]
    rfl
  · rw [if_neg hnone]
    rfl

theorem settled_pull_of_unfinished {cursor : Cursor} (h : cursor.finished = false)
    (wanted : Option Nat) :
    settled (cursor.pull wanted) = get >>= fun t =>
      settled (pullFrom wanted (cursor.scan.steps (t.table cursor.view) + 1) cursor []) := by
  unfold pull
  rw [h]
  rfl

/-- A request to a reader reads the rows that its scan has still to give. -/
theorem reads_pull (cursor : Cursor) (h : s.CanRead cursor.view) (hsize : 0 < cursor.scan.size)
    (wanted : Option Nat) :
    s.Reads cursor.view (settled (cursor.pull wanted))
      (cursor.readTable wanted (s.table cursor.view)) := by
  unfold readTable
  cases hfinished : cursor.finished with
  | true =>
    rw [settled_pull_of_finished hfinished]
    exact Store.Works.ofExcept _
  | false =>
    rw [settled_pull_of_unfinished hfinished]
    refine Store.Works.get_bind fun trace => ?_
    rw [Store.table_withTrace]
    have hsteps := Scan.length_remaining_lt_steps cursor.scan (s.table cursor.view)
    exact reads_pullFrom cursor h hsize [] (Nat.lt_succ_of_lt hsteps)

/-- A request to a new reader of a prefix reads the rows of the prefix. -/
theorem reads_pull_ofPrefix {view : View} (h : s.CanRead view) (pre : Bytes)
    (wanted : Option Nat) :
    s.Reads view (settled ((ofPrefix view pre).pull wanted))
      (readRows wanted ((s.table view).range pre (Key.upperBound? pre)) []) := by
  rw [← Scan.remaining_ofPrefix]
  exact reads_pull (ofPrefix view pre) h (Nat.zero_lt_succ _) wanted

/-- A new reader of a batch that is not open is refused as soon as it needs a row. -/
theorem reads_pull_closed {b : Nat} (h : s.isOpen b = false) (pre : Bytes) (wanted : Option Nat) :
    s.Reads (.batch b) (settled ((ofPrefix (.batch b) pre).pull wanted))
      (if wanted = some 0 then .ok ([], .full) else .error .batchClosed) := by
  rw [settled_pull_of_unfinished rfl]
  refine Store.Works.get_bind fun trace => ?_
  by_cases hfull : wanted = some 0
  · rw [if_pos hfull, settled_pullFrom_of_eq hfull]
    exact Store.Works.pure _
  · rw [if_neg hfull, settled_pullFrom_of_ne hfull]
    exact (Store.Works.checkOpen_closed h).bind_error.bind_error.bind_error

theorem toList_eq (cursor : Cursor) :
    cursor.toList = settled (cursor.pull none) >>= fun found => pure found.1 := by
  funext s
  show s.perform (_ >>= _) = s.perform (_ >>= _)
  rw [Store.perform_bind, Store.perform_bind, perform_request, perform_settled]
  obtain ⟨⟨items, ending, after⟩, t⟩ := (cursor.pull none).run s
  cases ending <;> rfl

/-- All observations of a prefix are those of the rows of the prefix. -/
theorem reads_toList {view : View} (h : s.CanRead view) (pre : Bytes) :
    s.Reads view (ofPrefix view pre).toList
      (readRows none ((s.table view).range pre (Key.upperBound? pre)) [] >>= fun found =>
        .ok found.1) := by
  rw [toList_eq]
  have hread := reads_pull_ofPrefix h pre none
  cases hrows : readRows none ((s.table view).range pre (Key.upperBound? pre)) [] with
  | error fault =>
    rw [hrows] at hread
    exact hread.bind_error
  | ok found =>
    rw [hrows] at hread
    exact hread.bind (Store.Works.pure found.1)

end

end Cursor

/-- The observation that a row shows to a reader, if the row is under the key of its record. -/
def shown? (row : Row) : Option Observation :=
  match classify row with
  | .ok x => x
  | .error _ => none

/-- A row is sound if its value is the record of an observation and its key one of the two keys of
that observation. -/
def IsSound (row : Row) : Prop :=
  ∃ x, Record.decode row.2 = .ok x ∧ (row.1 = Key.ofObservation x ∨ row.1 = Key.ofPair x)

theorem readRecord_eq_ok_iff {value : Bytes} {x : Observation} :
    readRecord value = .ok x ↔ Record.decode value = .ok x := by
  unfold readRecord
  cases Record.decode value with
  | ok y => exact ⟨fun h => by cases h; rfl, fun h => by cases h; rfl⟩
  | error fault => exact iff_of_false nofun nofun

theorem classify_of_isSound {row : Row} (h : IsSound row) : classify row = .ok (shown? row) := by
  obtain ⟨x, hdecode, hkey⟩ := h
  unfold shown? classify
  rw [readRecord_eq_ok_iff.2 hdecode]
  dsimp only
  by_cases htimed : row.1 = Key.ofObservation x
  · rw [if_pos htimed]
  · rw [if_neg htimed, if_pos (hkey.resolve_left htimed)]

/-- A sound row shows the record under its own key and nothing else. -/
theorem shown?_eq_some_iff {row : Row} {x : Observation} :
    shown? row = some x ↔ Record.decode row.2 = .ok x ∧ row.1 = Key.ofObservation x := by
  unfold shown? classify readRecord
  cases hdecode : Record.decode row.2 with
  | error fault => simp
  | ok y =>
    dsimp only
    by_cases htimed : row.1 = Key.ofObservation y
    · rw [if_pos htimed]
      constructor
      · rintro ⟨⟩
        exact ⟨rfl, htimed⟩
      · rintro ⟨⟨⟩, -⟩
        rfl
    · rw [if_neg htimed]
      refine iff_of_false (fun h => ?_) ?_
      · by_cases hpair : row.1 = Key.ofPair y
        · rw [if_pos hpair] at h
          cases h
        · rw [if_neg hpair] at h
          cases h
      · rintro ⟨⟨⟩, h⟩
        exact htimed h

namespace Cursor

theorem readRows_of_isSound {rows : List Row} (h : ∀ row ∈ rows, IsSound row)
    (found : List Observation) :
    readRows none rows found = .ok (found.reverse ++ rows.filterMap shown?, .exhausted) := by
  induction rows generalizing found with
  | nil => simp [readRows]
  | cons row rest ih =>
    have hrest := ih fun other hother => h other (List.mem_cons_of_mem _ hother)
    unfold readRows
    rw [if_neg (by simp)]
    dsimp only
    rw [classify_of_isSound (h row List.mem_cons_self), List.filterMap_cons]
    cases shown? row with
    | none => exact hrest found
    | some x =>
      show readRows none rest (x :: found) = _
      rw [hrest, List.reverse_cons, List.append_assoc]
      rfl

theorem readRows_isOk_of_isSound {rows : List Row} (h : ∀ row ∈ rows, IsSound row)
    (wanted : Option Nat) (found : List Observation) :
    ∃ out, readRows wanted rows found = .ok out := by
  induction rows generalizing found with
  | nil =>
    unfold readRows
    split
    · exact ⟨_, rfl⟩
    · exact ⟨_, rfl⟩
  | cons row rest ih =>
    unfold readRows
    split
    · exact ⟨_, rfl⟩
    · dsimp only
      rw [classify_of_isSound (h row List.mem_cons_self)]
      have hrest := ih fun other hother => h other (List.mem_cons_of_mem _ hother)
      cases shown? row with
      | none => exact hrest found
      | some x => exact hrest (x :: found)

end Cursor

end RateLedger
