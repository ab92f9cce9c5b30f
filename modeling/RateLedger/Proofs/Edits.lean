import RateLedger.Proofs.Readers
import RateLedger.Proofs.Records

/-!
# What an edit does to a table

Saving and deleting are described twice: as steps on a batch, which call the engine several times,
and as functions of the batch's table (`Table.saved`, `Table.deleted`). On a table of sound rows the
two agree, whatever the engine does: the step ends with the table of the function or fails on its
way there, and on every way the rows stay sound (`Shows.edits_save`, `Shows.edits_delete`). No row
is ever refused while an edit runs, so it is enough to study the functions.
-/

namespace RateLedger

/-- A table is sound if all its rows are. -/
def Table.IsSound (table : Table) : Prop := ∀ row ∈ table.rows, RateLedger.IsSound row

namespace Table

theorem IsSound.insert {table : Table} (h : table.IsSound) {key value : Bytes}
    (hrow : RateLedger.IsSound (key, value)) : (table.insert key value).IsSound := by
  intro row hmem
  rcases mem_insertRow hmem with rfl | hmem
  · exact hrow
  · exact h row hmem

theorem IsSound.erase {table : Table} (h : table.IsSound) (key : Bytes) :
    (table.erase key).IsSound :=
  fun row hmem => h row (List.mem_filter.1 hmem).1

theorem IsSound.of_lookup {table : Table} (h : table.IsSound) {key value : Bytes}
    (hlookup : table.lookup key = some value) : RateLedger.IsSound (key, value) :=
  h _ (mem_rows_iff_lookup.2 hlookup)

theorem IsSound.range {table : Table} (h : table.IsSound) (low : Bytes) (high : Option Bytes) :
    ∀ row ∈ table.range low high, RateLedger.IsSound row :=
  fun row hmem => h row (List.mem_filter.1 hmem).1

/-- The observation that the identity row of a pair records. -/
def newest? (table : Table) (pairId : String) : Option Observation :=
  (table.lookup (Key.identity pairId)).bind fun value => (Record.decode value).toOption

/-- Whether a row is the entry of a pair at some second. -/
def isEntryOf (pairId : String) (row : Row) : Bool :=
  match Record.decode row.2 with
  | .ok x => x.pairId = pairId && row.1 = Key.timed pairId x.seconds
  | .error _ => false

/-- The entries of a pair in the order of the keys. -/
def entriesOf (table : Table) (pairId : String) : List Row :=
  let pre := Key.identity pairId
  (table.range pre (Key.upperBound? pre)).filter (isEntryOf pairId)

/-- The value of the last entry of a pair in the order of the keys. -/
def lastOf? (table : Table) (pairId : String) : Option Bytes :=
  (table.entriesOf pairId).getLast?.map (·.2)

/-- The table after an observation is saved. -/
def saved (table : Table) (x : Observation) : Table :=
  let entered := table.insert (Key.ofObservation x) x.toRecord
  if (entered.newest? x.pairId).all (·.seconds ≤ x.seconds) then
    entered.insert (Key.ofPair x) x.toRecord
  else entered

/-- The table after the entry of a pair at a second is deleted. -/
def deleted (table : Table) (pairId : String) (seconds : Int) : Table :=
  let left := table.erase (Key.timed pairId seconds)
  if (left.newest? pairId).any (fun x => (x.seconds : Int) = seconds) then
    match left.lastOf? pairId with
    | none => left.erase (Key.identity pairId)
    | some record => left.insert (Key.identity pairId) record
  else left

theorem isSound_of_readable {x : Observation} (h : x.IsReadable) {key : Bytes}
    (hkey : key = Key.ofObservation x ∨ key = Key.ofPair x) :
    RateLedger.IsSound (key, x.toRecord) :=
  ⟨x, Record.decode_toRecord h, hkey⟩

theorem IsSound.saved {table : Table} (h : table.IsSound) {x : Observation} (hx : x.IsReadable) :
    (table.saved x).IsSound := by
  have hentered := h.insert (isSound_of_readable hx (.inl rfl))
  unfold Table.saved
  dsimp only
  split
  · exact hentered.insert (isSound_of_readable hx (.inr rfl))
  · exact hentered

/-- The last entry of a pair records an observation of the pair. -/
theorem decode_of_lastOf? {table : Table} {pairId : String} {record : Bytes}
    (h : table.lastOf? pairId = some record) :
    ∃ x, Record.decode record = .ok x ∧ x.pairId = pairId := by
  obtain ⟨row, hlast, rfl⟩ := Option.map_eq_some_iff.1 h
  have hentry := (List.mem_filter.1 (List.mem_of_getLast? hlast)).2
  unfold isEntryOf at hentry
  cases hdecode : Record.decode row.2 with
  | error fault => simp [hdecode] at hentry
  | ok x =>
    rw [hdecode] at hentry
    exact ⟨x, rfl, of_decide_eq_true (Bool.and_eq_true_iff.1 hentry).1⟩

theorem IsSound.deleted {table : Table} (h : table.IsSound) (pairId : String) (seconds : Int) :
    (table.deleted pairId seconds).IsSound := by
  have hleft := h.erase (Key.timed pairId seconds)
  unfold Table.deleted
  dsimp only
  split
  · split
    · exact hleft.erase _
    · rename_i record hlast
      obtain ⟨x, hdecode, rfl⟩ := decode_of_lastOf? hlast
      exact hleft.insert ⟨x, hdecode, .inr rfl⟩
  · exact hleft

end Table

/-! ## Edits as steps on a batch -/

namespace Store

variable {s : Store} {b : Nat}

@[simp] theorem isOpen_withView (s : Store) (b : Nat) (view : Table) (c : Nat) :
    (s.withView b view).isOpen c = s.isOpen c := by
  unfold isOpen withView
  rw [List.getElem?_modify]
  by_cases h : b = c
  · simp [h, Function.comp_def]
  · simp [h]

theorem exists_of_isOpen (h : s.isOpen b = true) :
    ∃ batch, s.batches[b]? = some batch ∧ batch.isOpen = true := by
  unfold isOpen at h
  cases hbatch : s.batches[b]? with
  | none => simp [hbatch] at h
  | some batch => exact ⟨batch, rfl, by simpa [hbatch] using h⟩

theorem viewOf_withView (h : s.isOpen b = true) (view : Table) :
    (s.withView b view).viewOf b = view := by
  obtain ⟨batch, hbatch, -⟩ := exists_of_isOpen h
  unfold viewOf withView
  simp [hbatch]

theorem viewOf_withView_of_ne {c : Nat} (hne : c ≠ b) (s : Store) (table : Table) :
    (s.withView b table).viewOf c = s.viewOf c := by
  unfold viewOf withView
  rw [List.getElem?_modify]
  simp [hne.symm]

theorem withView_withView (s : Store) (b : Nat) (first second : Table) :
    (s.withView b first).withView b second = s.withView b second := by
  unfold withView
  rw [List.modify_modify_eq]
  rfl

theorem withView_viewOf (h : s.isOpen b = true) : s.withView b (s.viewOf b) = s := by
  obtain ⟨batch, hbatch, -⟩ := exists_of_isOpen h
  have hsame : s.batches.modify b (fun old => { old with view := s.viewOf b }) = s.batches := by
    apply List.ext_getElem?
    intro c
    rw [List.getElem?_modify]
    by_cases hc : b = c
    · subst hc
      simp [hbatch, viewOf]
    · simp [hc]
  unfold withView
  rw [hsame]

/-- A batch is open and shows a sound table, and so does the store. -/
structure Shows (s : Store) (b : Nat) (table : Table) : Prop where
  isOpen : s.isOpen b = true
  view : s.viewOf b = table
  sound : table.IsSound
  committed : s.committed.IsSound

theorem Shows.withView {table other : Table} (h : s.Shows b table) (hother : other.IsSound) :
    (s.withView b other).Shows b other :=
  ⟨by rw [isOpen_withView, h.isOpen], viewOf_withView h.isOpen other, hother, h.committed⟩

/-- A step that edits an open batch: it ends with a table for the batch, or the engine stops it
where the rows of the batch are sound. -/
abbrev Edits (s : Store) (b : Nat) (step : StoreM Unit) (table : Table) : Prop :=
  s.Works step (.ok ⟨⟩) (s.withView b table) fun fault mid =>
    fault.isOutage = true ∧ ∃ left : Table, left.IsSound ∧ mid = s.withView b left

variable {table between after : Table}

theorem Shows.edits_nothing (h : s.Shows b table) : s.Edits b (pure ⟨⟩) table := by
  unfold Edits
  rw [← h.view, withView_viewOf h.isOpen]
  exact Works.pure _

/-- An edit goes on after another one. -/
theorem Shows.edits_bind {first : StoreM Unit} {second : Unit → StoreM Unit} (h : s.Shows b table)
    (hbetween : between.IsSound) (hfirst : s.Edits b first between)
    (hsecond : ∀ t : Store, t.Shows b between → t.Edits b (second ⟨⟩) after) :
    s.Edits b (first >>= second) after := by
  have hsecond := hsecond _ (h.withView hbetween)
  unfold Edits at hsecond
  simp only [withView_withView] at hsecond
  exact Works.bind hfirst hsecond

/-- An edit may depend on what is read before. -/
theorem Shows.edits_read_bind {read : StoreM α} {next : α → StoreM Unit} {a : α}
    (h : s.Shows b table) (hread : s.Reads (.batch b) read (.ok a))
    (hnext : s.Edits b (next a) after) :
    s.Edits b (read >>= next) after := by
  refine Works.bind (hread.mono fun fault mid ⟨hout, hmid⟩ => ?_) hnext
  rcases hmid with rfl | rfl
  · exact ⟨hout, table, h.sound, by rw [← h.view, withView_viewOf h.isOpen]⟩
  · exact ⟨hout, s.committed, h.committed, rfl⟩

theorem Shows.edits_put (h : s.Shows b table) (key value : Bytes) :
    s.Edits b (put b key value) (table.insert key value) := by
  rw [← h.view]
  exact h.edits_read_bind (reads_engineFor .write) (Works.modify rfl fun _ => rfl)

theorem Shows.edits_remove (h : s.Shows b table) (key : Bytes) :
    s.Edits b (remove b key) (table.erase key) := by
  rw [← h.view]
  exact h.edits_read_bind (reads_engineFor .delete) (Works.modify rfl fun _ => rfl)

theorem Shows.reads_readRow (h : s.Shows b table) (key : Bytes) :
    s.Reads (.batch b) (readRow (.batch b) key) (.ok (table.lookup key)) := by
  rw [← h.view]
  have hview : s.CanRead (.batch b) := h.isOpen
  exact Store.reads_readRow hview key

/-- Saving never meets a row that it cannot read. -/
theorem Shows.edits_save (h : s.Shows b table) {x : Observation} (hx : x.IsReadable) :
    s.Edits b (save b x) (table.saved x) := by
  have hentered : (table.insert (Key.ofObservation x) x.toRecord).IsSound :=
    h.sound.insert (Table.isSound_of_readable hx (.inl rfl))
  unfold save Table.saved
  refine Works.bind (Works.checkOpen h.isOpen) (h.edits_bind hentered (h.edits_put _ _) ?_)
  generalize table.insert (Key.ofObservation x) x.toRecord = entered at hentered ⊢
  intro t ht
  refine ht.edits_read_bind (ht.reads_readRow _) ?_
  have hput := ht.edits_put (Key.ofPair x) x.toRecord
  have hnewest : entered.newest? x.pairId = (entered.lookup (Key.ofPair x)).bind fun value =>
      (Record.decode value).toOption := rfl
  dsimp only
  rw [hnewest]
  cases hcase : entered.lookup (Key.ofPair x) with
  | none => exact hput
  | some value =>
    obtain ⟨y, hdecode, -⟩ := hentered.of_lookup hcase
    dsimp only
    rw [readRecord_eq_ok_iff.2 hdecode]
    refine ht.edits_read_bind (Works.ofExcept (.ok y)) ?_
    rw [Option.bind_some, hdecode]
    by_cases hle : y.seconds ≤ x.seconds
    · simpa [Except.toOption, hle] using hput
    · simpa [Except.toOption, hle] using ht.edits_nothing

/-- On sound rows the search for the newest entry takes the last one that is an entry. -/
theorem foldlM_keepNewest {rows : List Row} (h : ∀ row ∈ rows, RateLedger.IsSound row)
    (pairId : String) (found : Option Bytes) :
    rows.foldlM (keepNewest pairId) found =
      .ok (((rows.filter (Table.isEntryOf pairId)).getLast?.map (·.2)).or found) := by
  induction rows generalizing found with
  | nil => rfl
  | cons row rest ih =>
    have hrest := ih fun other hother => h other (List.mem_cons_of_mem _ hother)
    obtain ⟨x, hdecode, -⟩ := h row List.mem_cons_self
    have hkeep : keepNewest pairId found row =
        .ok (if Table.isEntryOf pairId row then some row.2 else found) := by
      unfold keepNewest Table.isEntryOf
      rw [readRecord_eq_ok_iff.2 hdecode, hdecode]
      by_cases hentry : x.pairId = pairId ∧ row.1 = Key.timed pairId x.seconds
      · simp [hentry]
      · simp [hentry]
    rw [List.foldlM_cons, hkeep]
    show rest.foldlM (keepNewest pairId) _ = _
    rw [hrest, List.filter_cons]
    by_cases hentry : Table.isEntryOf pairId row = true
    · rw [if_pos hentry, if_pos hentry, List.getLast?_cons]
      cases (rest.filter (Table.isEntryOf pairId)).getLast? <;> rfl
    · rw [if_neg hentry, if_neg hentry]

theorem Shows.reads_newestRecord (h : s.Shows b table) (pairId : String) :
    s.Reads (.batch b) (newestRecord (.batch b) pairId) (.ok (table.lastOf? pairId)) := by
  have hview : s.CanRead (.batch b) := h.isOpen
  have hfold := Scan.reads_fold hview (keepNewest pairId)
    (Scan.ofPrefix (Key.identity pairId)) (Nat.zero_lt_succ _) none
  have htable : s.table (.batch b) = table := h.view
  rw [Scan.remaining_ofPrefix, htable, foldlM_keepNewest (h.sound.range _ _), Option.or_none]
    at hfold
  exact hfold

/-- Deleting never meets a row that it cannot read. -/
theorem Shows.edits_delete (h : s.Shows b table) (pairId : String) {seconds : Int}
    (hfits : Key.fits seconds = true) :
    s.Edits b (delete b pairId seconds) (table.deleted pairId seconds) := by
  have hleft := h.sound.erase (Key.timed pairId seconds)
  unfold delete Table.deleted
  rw [hfits]
  refine Works.bind (Works.checkOpen h.isOpen) ?_
  refine h.edits_bind hleft (h.edits_remove _) ?_
  generalize table.erase (Key.timed pairId seconds) = left at hleft ⊢
  intro t ht
  refine ht.edits_read_bind (ht.reads_readRow _) ?_
  have hnewest : left.newest? pairId = (left.lookup (Key.identity pairId)).bind fun value =>
      (Record.decode value).toOption := rfl
  dsimp only
  rw [hnewest]
  cases hcase : left.lookup (Key.identity pairId) with
  | none => exact ht.edits_nothing
  | some value =>
    obtain ⟨y, hdecode, -⟩ := hleft.of_lookup hcase
    dsimp only
    rw [readRecord_eq_ok_iff.2 hdecode]
    refine ht.edits_read_bind (Works.ofExcept (.ok y)) ?_
    rw [Option.bind_some, hdecode]
    by_cases heq : (y.seconds : Int) = seconds
    · simp only [heq, if_true, Except.toOption, Option.any_some, decide_true]
      refine ht.edits_read_bind (ht.reads_newestRecord pairId) ?_
      cases left.lastOf? pairId with
      | none => exact ht.edits_remove _
      | some record => exact ht.edits_put _ _
    · simpa [Except.toOption, heq] using ht.edits_nothing

end Store

end RateLedger
