import RateLedger.Proofs.IdentityRows
import RateLedger.Proofs.RecordForms
import RateLedger.Proofs.Scannable

/-!
# Reading whatever is stored

Rows that no call ever wrote can be in a table too: values that are cut off, records under a key of
another pair, keys that are no keys. A reader looks at the rows of its range one after the other,
and gives out or passes over those that are sound. At the first row that is neither it stops, and
tells what is wrong with it; what it gave out before stays given (`Cursor.stops_pullFrom`). So what
a scan shows is never a record in a place of another one, and the row that an identity key answers
for is always the record of that pair (`reads_any_rows`).
-/

namespace RateLedger

/-- What is said of a row that is not sound: its value is no record, or its key is neither of the
keys of its record. -/
inductive IsAmiss : Row → StoreFault → Prop
  | record {row : Row} {fault : Record.Fault} (h : Record.decode row.2 = .error fault) :
    IsAmiss row (.record fault)
  | key {row : Row} {x : Observation} (h : Record.decode row.2 = .ok x)
    (htimed : row.1 ≠ Key.timed x.pairId x.seconds) (hpair : row.1 ≠ Key.identity x.pairId) :
    IsAmiss row (.foreignKey row.1 x.pairId)

theorem IsAmiss.isCorruption {row : Row} {fault : StoreFault} (h : IsAmiss row fault) :
    fault.isCorruption = true := by
  cases h <;> rfl

theorem isAmiss_of_classify {row : Row} {fault : StoreFault} (h : classify row = .error fault) :
    IsAmiss row fault := by
  unfold classify readRecord at h
  cases hdecode : Record.decode row.2 with
  | error cause =>
    rw [hdecode] at h
    cases h
    exact .record hdecode
  | ok x =>
    rw [hdecode] at h
    dsimp only at h
    split at h
    · cases h
    · rename_i htimed
      split at h
      · cases h
      · rename_i hpair
        cases h
        exact .key hdecode htimed hpair

namespace Cursor

/-- How a reader that gave out `items` can have come to an end in front of the rows `left`. -/
inductive Stops (s : Store) (wanted : Option Nat) (items : List Observation) (left : List Row) :
    Ending → Prop
  | full (h : wanted = some items.length) : Stops s wanted items left .full
  | exhausted (h : wanted ≠ some items.length) (hleft : left = []) :
    Stops s wanted items left .exhausted
  /-- The next row is not sound. -/
  | amiss {row : Row} {rest : List Row} {fault : StoreFault} (h : wanted ≠ some items.length)
    (hleft : left = row :: rest) (hrow : IsAmiss row fault) :
    Stops s wanted items left (.failed fault)
  /-- The engine failed. -/
  | outage {fault : StoreFault} (h : wanted ≠ some items.length) (hfault : fault.isOutage = true)
    (hplan : ¬s.IsReliable) : Stops s wanted items left (.failed fault)

/-- What a request gives out of some rows, behind the observations `before`: the records of sound
rows at their front, up to where it stops. -/
def Gives (s : Store) (wanted : Option Nat) (rows : List Row) (before : List Observation)
    (pull : Pull) : Prop :=
  ∃ front left, rows = front ++ left ∧ (∀ row ∈ front, IsSound row) ∧
    pull.items = before ++ front.filterMap shown? ∧ Stops s wanted pull.items left pull.ending

section

variable {s : Store} {wanted : Option Nat} {rows : List Row} {before : List Observation}
  {pull : Pull}

theorem Gives.stopped {items : List Observation} {ending : Ending} {cursor : Cursor}
    (h : Stops s wanted items rows ending) : Gives s wanted rows items ⟨items, ending, cursor⟩ :=
  ⟨[], rows, rfl, nofun, (List.append_nil items).symm, h⟩

theorem Gives.cons {row : Row} (hrow : IsSound row)
    (h : Gives s wanted rows (before ++ (shown? row).toList) pull) :
    Gives s wanted (row :: rows) before pull := by
  obtain ⟨front, left, rfl, hfront, hitems, hstop⟩ := h
  refine ⟨row :: front, left, rfl, List.forall_mem_cons.2 ⟨hrow, hfront⟩, ?_, hstop⟩
  rw [hitems, List.append_assoc, List.filterMap_cons]
  cases shown? row <;> rfl

end

theorem run_run_bind (s : Store) (step : StoreM α)
    (next : Except StoreFault α → StateM Store Pull) :
    (step.run >>= next).run s = (next (s.perform step).1).run (s.perform step).2 := rfl

/-- One row of a reader. -/
theorem run_pullFrom_of_ne {wanted : Option Nat} {found : List Observation}
    (h : wanted ≠ some found.length) (fuel : Nat) (cursor : Cursor) (s : Store) :
    (pullFrom wanted (fuel + 1) cursor found).run s =
      match s.perform (cursor.scan.next? cursor.view) with
      | (.error fault, t) =>
        (⟨found.reverse, .failed fault, { cursor with finished := true }⟩, t)
      | (.ok none, t) => (⟨found.reverse, .exhausted, { cursor with finished := true }⟩, t)
      | (.ok (some (row, scan)), t) =>
        match classify row with
        | .error fault =>
          (⟨found.reverse, .failed fault, { cursor with scan, finished := true }⟩, t)
        | .ok shown =>
          (pullFrom wanted fuel { cursor with scan } (shown.toList ++ found)).run t := by
  rw [pullFrom, if_neg h]
  refine (run_run_bind s _ _).trans ?_
  rcases s.perform (cursor.scan.next? cursor.view) with ⟨fault | _ | ⟨row, scan⟩, t⟩
  · rfl
  · rfl
  · dsimp only
    rcases classify row with fault | _ | x <;> rfl

/-- A request to a reader, asked of a store with any rows, gives out the records of the sound rows
at the front of those that its scan has still to give. -/
theorem gives_pullFrom {s : Store} {wanted : Option Nat} {fuel : Nat} (cursor : Cursor)
    (h : s.CanRead cursor.view) (hsize : 0 < cursor.scan.size) (found : List Observation)
    (hfuel : (cursor.scan.remaining (s.table cursor.view)).length < fuel)
    (trace : List EngineEvent) :
    Gives s wanted (cursor.scan.remaining (s.table cursor.view)) found.reverse
      ((pullFrom wanted fuel cursor found).run (s.withTrace trace)).1 := by
  -- As in a table that does not change, every row that is read uses one step.
  induction fuel generalizing cursor found trace with
  | zero => omega
  | succ fuel ih =>
    by_cases hfull : wanted = some found.length
    · rw [pullFrom, if_pos hfull]
      exact Gives.stopped (.full (hfull.trans (by rw [List.length_reverse])))
    rw [run_pullFrom_of_ne hfull]
    rw [← List.length_reverse] at hfull
    have hnext := Scan.remaining_next (s.table cursor.view) hsize
    obtain ⟨events, ⟨-, hrun⟩ | ⟨-, hplan, fault, mid, ⟨hout, -⟩, hrun⟩⟩ :=
      (Scan.reads_next h cursor.scan).run trace
    · rw [hrun]
      cases hcase : cursor.scan.next (s.table cursor.view) with
      | none =>
        rw [hcase] at hnext
        exact Gives.stopped (.exhausted hfull hnext)
      | some out =>
        obtain ⟨row, after⟩ := out
        rw [hcase] at hnext
        obtain ⟨hrest, hafter⟩ := hnext
        rw [hrest, List.length_cons] at hfuel
        rw [hrest]
        dsimp only
        cases hrow : classify row with
        | error fault => exact Gives.stopped (.amiss hfull rfl (isAmiss_of_classify hrow))
        | ok shown =>
          have hsound : IsSound row := isSound_of_classify hrow
          have hshown : shown? row = shown :=
            Except.ok.inj ((classify_of_isSound hsound).symm.trans hrow)
          have hbefore : (shown.toList ++ found).reverse = found.reverse ++ shown.toList := by
            cases shown <;> simp
          have hpos : 0 < after.size := hafter ▸ hsize
          have hmore := ih { cursor with scan := after } h hpos (shown.toList ++ found)
            (Nat.lt_of_succ_lt_succ hfuel) (events ++ trace)
          rw [hbefore, ← hshown] at hmore
          exact Gives.cons hsound (hshown ▸ hmore)
    · rw [hrun]
      exact Gives.stopped (.outage hfull hout hplan)

/-- A request to a new reader of a prefix, on any rows. -/
theorem gives_pull_ofPrefix {s : Store} {view : View} (h : s.CanRead view) (pre : Bytes)
    (wanted : Option Nat) :
    Gives s wanted ((s.table view).range pre (Key.upperBound? pre)) []
      (((ofPrefix view pre).pull wanted).run s).1 := by
  rw [← Scan.remaining_ofPrefix]
  have hsteps := Scan.length_remaining_lt_steps (Scan.ofPrefix pre) (s.table view)
  exact gives_pullFrom (ofPrefix view pre) h (Nat.zero_lt_succ _) []
    (Nat.lt_succ_of_lt hsteps) s.trace

end Cursor

namespace Table

theorem range_upperBound (table : Table) (pre : Bytes) :
    table.range pre (Key.upperBound? pre) =
      table.rows.filter fun row => pre.isPrefixOf row.1 := by
  refine List.filter_congr fun row _ => ?_
  rw [Bool.eq_iff_iff, Key.inRange_upperBound_iff, List.isPrefixOf_iff_prefix]

/-- The row that the newest observation of a pair is read from holds the record of that
observation. -/
theorem lookup_of_readNewest {table : Table} {pairId : String} {x : Observation}
    (h : table.readNewest pairId = .ok x) :
    x.pairId = pairId ∧ table.lookup (Key.identity pairId) = some x.toRecord := by
  unfold readNewest at h
  cases hlookup : table.lookup (Key.identity pairId) with
  | none =>
    rw [hlookup] at h
    cases h
  | some value =>
    rw [hlookup] at h
    dsimp only at h
    cases hread : readRecord value with
    | error fault =>
      rw [hread] at h
      cases h
    | ok y =>
      rw [hread] at h
      change (if y.pairId = pairId then _ else _ : Except StoreFault Observation) = _ at h
      split at h
      · rename_i hpair
        cases h
        have hdecode := readRecord_eq_ok_iff.1 hread
        exact ⟨hpair, congrArg some (Record.decode_eq_ok_iff.1 hdecode).2.symm⟩
      · cases h

end Table

theorem Ascending.eq_of_key_eq {rows : List Row} (h : Ascending rows) {row other : Row}
    (hrow : row ∈ rows) (hother : other ∈ rows) (hkey : row.1 = other.1) : row = other := by
  have hlookup {found : Row} (hfound : found ∈ rows) :
      (⟨rows, h⟩ : Table).lookup found.1 = some found.2 :=
    Table.mem_rows_iff_lookup.1 hfound
  have hvalue := hlookup hrow
  rw [hkey, hlookup hother] at hvalue
  exact Prod.ext hkey (Option.some.inj hvalue).symm

/-- What is given out for rows that a reader went over. -/
structure Cursor.Shows (rows : List Row) (items : List Observation) : Prop where
  /-- A row under the key of its record is given out, one under the identity key of its record's
  pair is passed over, and there is no third kind of row. -/
  given_or_passed : ∀ row ∈ rows,
    (∃ x ∈ items, Record.decode row.2 = .ok x ∧ row.1 = Key.timed x.pairId x.seconds) ∨
      (∃ x, Record.decode row.2 = .ok x ∧ row.1 = Key.identity x.pairId) ∧
        ∀ x ∈ items, row.1 ≠ Key.timed x.pairId x.seconds
  stored : ∀ x ∈ items, ∃ row ∈ rows, Record.decode row.2 = .ok x ∧
    row.1 = Key.timed x.pairId x.seconds
  ascending : items.Pairwise fun x y =>
    Key.timed x.pairId x.seconds < Key.timed y.pairId y.seconds
  once : items.Pairwise fun x y => ¬(x.pairId = y.pairId ∧ x.seconds = y.seconds)

theorem Cursor.shows_filterMap {rows : List Row} (hrows : Ascending rows)
    (hsound : ∀ row ∈ rows, IsSound row) : Shows rows (rows.filterMap shown?) := by
  have hascending : (rows.filterMap shown?).Pairwise fun x y =>
      Key.timed x.pairId x.seconds < Key.timed y.pairId y.seconds := by
    refine List.pairwise_filterMap.2 (hrows.imp fun {row other} hlt x hx y hy => ?_)
    have hrow : row.1 = Key.timed x.pairId x.seconds := (shown?_eq_some_iff.1 hx).2
    have hother : other.1 = Key.timed y.pairId y.seconds := (shown?_eq_some_iff.1 hy).2
    rw [← hrow, ← hother]
    exact hlt
  have hstored : ∀ x ∈ rows.filterMap shown?, ∃ row ∈ rows, Record.decode row.2 = .ok x ∧
      row.1 = Key.timed x.pairId x.seconds := by
    intro x hx
    obtain ⟨row, hrow, hshown⟩ := List.mem_filterMap.1 hx
    exact ⟨row, hrow, shown?_eq_some_iff.1 hshown⟩
  refine ⟨fun row hrow => ?_, hstored, hascending, hascending.imp fun {x y} hlt heq => ?_⟩
  · obtain ⟨x, hdecode, htimed | hpair⟩ := hsound row hrow
    · have hshown : shown? row = some x := shown?_eq_some_iff.2 ⟨hdecode, htimed⟩
      exact .inl ⟨x, List.mem_filterMap.2 ⟨row, hrow, hshown⟩, hdecode, htimed⟩
    · refine .inr ⟨⟨x, hdecode, hpair⟩, fun y hy hkey => ?_⟩
      -- two rows with one key are one row, and its record has two different keys
      obtain ⟨other, hother, hread, hown⟩ := hstored y hy
      obtain rfl : row = other := hrows.eq_of_key_eq hrow hother (hkey.trans hown.symm)
      obtain rfl : x = y := Except.ok.inj (hdecode.symm.trans hread)
      exact Key.timed_ne_identity_self _ _ (hkey.symm.trans hpair)
  · rw [heq.1, heq.2] at hlt
    exact List.lt_irrefl _ hlt

namespace Store

/-- Let a store hold any rows, whoever wrote them. A request to a reader of a prefix goes over the
rows whose keys start with the prefix, in the order of their keys. It gives out the records of those
under their own keys and passes over those under the identity keys of their pairs, up to where it
stops: it has as many as were wanted, or no row is left, or the next row is of neither kind, which
is a corruption, or the engine failed. So no second of a pair is given out twice. And the
observation that is read as the newest one of a pair is of that pair, and its record is the value of
the pair's identity key. -/
theorem reads_any_rows (s : Store) (view : View) (hview : s.CanRead view) :
    (∀ pre wanted,
      let pull := (((Cursor.ofPrefix view pre).pull wanted).run s).1
      ∃ front left,
        ((s.table view).rows.filter fun row => pre.isPrefixOf row.1) = front ++ left ∧
        Cursor.Shows front pull.items ∧ Cursor.Stops s wanted pull.items left pull.ending ∧
        ∀ fault, pull.ending = .failed fault →
          fault.isCorruption = true ∨ fault.isOutage = true ∧ ¬s.IsReliable) ∧
    ∀ pairId x, (s.perform (newest view pairId)).1 = .ok x →
      x.pairId = pairId ∧ (s.table view).lookup (Key.identity pairId) = some x.toRecord := by
  refine ⟨fun pre wanted => ?_, fun pairId x hx => ?_⟩
  · intro pull
    obtain ⟨front, left, hrows, hfront, hitems, hstop⟩ :=
      Cursor.gives_pull_ofPrefix hview pre wanted
    have hascending : Ascending (front ++ left) :=
      hrows ▸ (s.table view).ascending.filter _
    refine ⟨front, left, Table.range_upperBound _ _ ▸ hrows, ?_, hstop, fun fault hfault => ?_⟩
    · rw [show pull.items = front.filterMap shown? from hitems]
      exact Cursor.shows_filterMap (List.pairwise_append.1 hascending).1 hfront
    · change Cursor.Stops s wanted pull.items left pull.ending at hstop
      rw [hfault] at hstop
      cases hstop with
      | amiss _ _ hrow => exact .inl hrow.isCorruption
      | outage _ hout hplan => exact .inr ⟨hout, hplan⟩
  · exact Table.lookup_of_readNewest ((reads_newest hview pairId).of_ok hx).1

/-- A store in which the second entry of a pair is cut off. -/
def cutOff : Store :=
  let table := (Table.empty.insert (Key.ofPair early) early.toRecord).insert
    (Key.ofObservation early) early.toRecord
  { fresh with committed := table.insert (Key.ofObservation late) (late.toRecord.take 24) }

theorem reads_any_rows_cut_off :
    let pull := (((Cursor.ofPrefix .committed Key.root).pull none).run cutOff).1
    cutOff.CanRead .committed ∧ pull.items = [early] ∧
    (∃ fault, pull.ending = .failed fault ∧ fault.isCorruption = true) ∧
    (cutOff.perform (newest .committed "EUR2USD")).1 = .ok early ∧
    cutOff.committed.lookup (Key.identity "EUR2USD") = some early.toRecord := by
  intro pull
  have hview : cutOff.CanRead .committed := trivial
  obtain ⟨hscans, hnewest⟩ := reads_any_rows cutOff .committed hview
  have hitems : pull.items = [early] := by decide +kernel
  have hending : pull.ending = .failed (.record (.tooShort 8 2)) := by decide +kernel
  have hread : (cutOff.perform (newest .committed "EUR2USD")).1 = .ok early := by decide +kernel
  obtain ⟨front, left, -, -, -, hfault⟩ := hscans Key.root none
  have hcorruption : (StoreFault.record (.tooShort 8 2)).isCorruption = true :=
    (hfault _ hending).resolve_right nofun
  exact ⟨hview, hitems, ⟨_, hending, hcorruption⟩, hread, (hnewest _ _ hread).2⟩

end Store

end RateLedger
