import RateLedger.Proofs.Drafts
import RateLedger.Proofs.Holdings
import RateLedger.Proofs.Pruning
import RateLedger.Service

/-!
# Tables that can be scanned

A full scan of a table succeeds exactly if every row below the root is sound, whatever other rows
there are (`isScannable_iff`). On such a table no edit is refused for what it finds, and all that an
edit writes can be scanned again, unless a code of what it saves is too long to be read back
(`IsScannable.answer`, `IsScannable.written_draft`). So saving and pruning in batches of their own
come to their ends. One row that cannot be read is enough to stop every scan.
-/

namespace RateLedger

theorem isSound_of_classify {row : Row} {found : Option Observation}
    (h : classify row = .ok found) : IsSound row := by
  unfold classify at h
  cases hread : readRecord row.2 with
  | error fault =>
    rw [hread] at h
    cases h
  | ok x =>
    rw [hread] at h
    dsimp only at h
    refine ⟨x, readRecord_eq_ok_iff.1 hread, ?_⟩
    by_cases htimed : row.1 = Key.ofObservation x
    · exact .inl htimed
    · by_cases hpair : row.1 = Key.ofPair x
      · exact .inr hpair
      · rw [if_neg htimed, if_neg hpair] at h
        cases h

theorem Cursor.isSound_of_readRows {rows : List Row} {found : List Observation}
    {out : List Observation × Ending} (h : readRows none rows found = .ok out) :
    ∀ row ∈ rows, IsSound row := by
  induction rows generalizing found with
  | nil => nofun
  | cons row rest ih =>
    unfold readRows at h
    rw [if_neg (by simp)] at h
    dsimp only at h
    cases hrow : classify row with
    | error fault =>
      rw [hrow] at h
      cases h
    | ok x =>
      rw [hrow] at h
      have hrest : ∀ other ∈ rest, IsSound other := by
        cases x with
        | none => exact ih h
        | some x => exact ih h
      intro other hother
      rcases List.mem_cons.1 hother with rfl | hmem
      · exact isSound_of_classify hrow
      · exact hrest other hmem

theorem Key.timed_ne_identity_self (pairId : String) (seconds : Int) :
    Key.timed pairId seconds ≠ Key.identity pairId := by
  intro h
  have hlength := congrArg List.length h
  rw [Key.length_timed] at hlength
  omega

namespace Table

/-- A table can be scanned if its rows below the root are sound. -/
def IsScannable (table : Table) : Prop :=
  ∀ row ∈ table.rows, Key.root <+: row.1 → RateLedger.IsSound row

section

variable {table : Table} {x : Observation} {pairId : String}

theorem IsScannable.range (h : table.IsScannable) {pre : Bytes} (hpre : Key.root <+: pre) :
    ∀ row ∈ table.range pre (Key.upperBound? pre), RateLedger.IsSound row := by
  intro row hrow
  obtain ⟨hmem, hrange⟩ := mem_range.1 hrow
  exact h row hmem (hpre.trans (Key.inRange_upperBound_iff.1 hrange))

/-- A full scan of a table succeeds exactly if it can be scanned. -/
theorem isScannable_iff :
    table.IsScannable ↔
      ∃ out,
        Cursor.readRows none (table.range Key.root (Key.upperBound? Key.root)) [] = .ok out := by
  constructor
  · intro h
    exact Cursor.readRows_isOk_of_isSound (h.range List.prefix_rfl) none []
  · rintro ⟨out, hout⟩ row hrow hroot
    exact Cursor.isSound_of_readRows hout row
      (mem_range.2 ⟨hrow, Key.inRange_upperBound_iff.2 hroot⟩)

theorem IsScannable.of_lookup (h : table.IsScannable) {key value : Bytes}
    (hroot : Key.root <+: key) (hlookup : table.lookup key = some value) :
    RateLedger.IsSound (key, value) :=
  h _ (mem_rows_iff_lookup.2 hlookup) hroot

theorem IsScannable.erase (h : table.IsScannable) (key : Bytes) : (table.erase key).IsScannable :=
  fun row hmem => h row (List.mem_filter.1 hmem).1

theorem IsScannable.insert (h : table.IsScannable) {key value : Bytes}
    (hrow : RateLedger.IsSound (key, value)) : (table.insert key value).IsScannable := by
  intro row hmem hroot
  rcases mem_insertRow hmem with rfl | hmem
  · exact hrow
  · exact h row hmem hroot

theorem IsScannable.newestRecord (h : table.IsScannable) (pairId : String) :
    table.newestRecord pairId = .ok (table.lastOf? pairId) := by
  unfold Table.newestRecord
  rw [Store.foldlM_keepNewest (h.range (Key.root_prefix_identity pairId)), Option.or_none]
  rfl

/-- An observation that has its entry is settled if the identity row of its pair can be read. -/
theorem answer_draftNewest
    (h : ∀ value, table.lookup (Key.ofPair x) = some value → ∃ y, Record.decode value = .ok y) :
    (table.draftNewest x).answer = .ok ⟨⟩ := by
  unfold draftNewest
  cases hlookup : table.lookup (Key.ofPair x) with
  | none => rfl
  | some value =>
    obtain ⟨y, hy⟩ := h value hlookup
    dsimp only
    rw [readRecord_eq_ok_iff.2 hy]
    dsimp only
    split <;> rfl

theorem IsScannable.answer_draftRepair (h : table.IsScannable) (pairId : String) (seconds : Int) :
    (table.draftRepair pairId seconds).answer = .ok ⟨⟩ := by
  unfold draftRepair
  cases hlookup : table.lookup (Key.identity pairId) with
  | none => rfl
  | some value =>
    obtain ⟨y, hy, -⟩ := h.of_lookup (Key.root_prefix_identity pairId) hlookup
    dsimp only
    rw [readRecord_eq_ok_iff.2 hy, h.newestRecord]
    dsimp only
    split
    · cases table.lastOf? pairId <;> rfl
    · rfl

theorem lookup_entered (table : Table) (x : Observation) :
    (table.insert (Key.ofObservation x) x.toRecord).lookup (Key.ofPair x) =
      table.lookup (Key.ofPair x) :=
  (table.lookup_insert _ _ _).trans (if_neg (Key.timed_ne_identity_self x.pairId x.seconds).symm)

/-- No edit of a table that can be scanned is refused for what it finds. -/
theorem IsScannable.answer (h : table.IsScannable) {change : Edit}
    (hfits : ∀ pairId seconds, change = .delete pairId seconds → Key.fits seconds = true) :
    (table.draft change).answer = .ok ⟨⟩ := by
  cases change with
  | save x =>
    refine answer_draftNewest fun value hvalue => ?_
    have hold : table.lookup (Key.ofPair x) = some value :=
      (table.lookup_entered x).symm.trans hvalue
    obtain ⟨y, hy, -⟩ := h.of_lookup (Key.root_prefix_identity x.pairId) hold
    exact ⟨y, hy⟩
  | delete pairId seconds =>
    dsimp only [draft]
    rw [if_pos (hfits pairId seconds rfl)]
    exact (h.erase _).answer_draftRepair pairId seconds

theorem IsScannable.written (h : table.IsScannable) {writes : List Write}
    (hputs : ∀ key value, .put key value ∈ writes → RateLedger.IsSound (key, value)) :
    (table.written writes).IsScannable := by
  induction writes generalizing table with
  | nil => exact h
  | cons write rest ih =>
    refine ih ?_ fun key value hmem => hputs key value (List.mem_cons_of_mem _ hmem)
    cases write with
    | put key value => exact h.insert (hputs key value List.mem_cons_self)
    | remove key => exact h.erase key

/-- What an edit puts is the record of an observation: of the one that it saves, or of one that gets
the identity row of its pair. -/
theorem IsScannable.put_of_draft (h : table.IsScannable) {change : Edit}
    (hreadable : ∀ x, change = .save x → x.IsReadable) {key value : Bytes}
    (hput : .put key value ∈ (table.draft change).writes) :
    ∃ x, Record.decode value = .ok x ∧
      (key = Key.ofObservation x ∧ change = .save x ∨ key = Key.ofPair x) := by
  cases change with
  | save x =>
    have hdecode := Record.decode_toRecord (hreadable x rfl)
    rcases List.mem_cons.1 hput with heq | hrest
    · cases heq
      exact ⟨x, hdecode, .inl ⟨rfl, rfl⟩⟩
    · rcases writes_draftNewest _ x with hwrites | hwrites <;> rw [hwrites] at hrest
      · cases hrest
      · cases List.mem_singleton.1 hrest
        exact ⟨x, hdecode, .inr rfl⟩
  | delete pairId seconds =>
    dsimp only [draft] at hput
    by_cases hfits : Key.fits seconds = true
    · rw [if_pos hfits] at hput
      rcases List.mem_cons.1 hput with heq | hrest
      · cases heq
      · rcases writes_draftRepair _ pairId seconds with
          hwrites | hwrites | ⟨record, hnewest, hwrites⟩ <;> rw [hwrites] at hrest
        · cases hrest
        · cases List.mem_singleton.1 hrest
        · cases List.mem_singleton.1 hrest
          have hleft : (Write.applied table (.remove (Key.timed pairId seconds))).IsScannable :=
            h.erase _
          rw [hleft.newestRecord, Except.ok.injEq] at hnewest
          obtain ⟨x, hdecode, rfl⟩ := decode_of_lastOf? hnewest
          exact ⟨x, hdecode, .inr rfl⟩
    · rw [if_neg hfits] at hput
      cases hput

/-- What an edit writes can be scanned again, if what it saves can be read back. -/
theorem IsScannable.written_draft (h : table.IsScannable) {change : Edit}
    (hreadable : ∀ x, change = .save x → x.IsReadable) :
    (table.written (table.draft change).writes).IsScannable := by
  refine h.written fun key value hput => ?_
  obtain ⟨x, hdecode, hkey⟩ := h.put_of_draft hreadable hput
  exact ⟨x, hdecode, hkey.imp_left And.left⟩

end

end Table

namespace Store

variable {s : Store} {b : Nat}

/-- With a reliable engine a step makes all its writes. -/
theorem Makes.perform {step : StoreM α} {writes : List Write} {answer : Except StoreFault α}
    (h : s.Makes b step writes answer) (hs : s.IsReliable) :
    ∃ trace, s.perform step =
      (answer, (s.withView b ((s.viewOf b).written writes)).withTrace trace) := by
  obtain ⟨events, made, -, hafter, ⟨hkept, rfl, hanswer⟩ | ⟨-, hplan, -⟩⟩ := h.run
  · rw [undoneBy_of_not _ _ hkept] at hafter
    exact ⟨_, Prod.ext hanswer hafter⟩
  · exact absurd hs hplan

/-- With a reliable engine a batch of its own is committed with all that was written in it, unless
what was done in it failed; then the committed rows stay. -/
theorem perform_batched (hs : s.IsReliable) (hfree : s.locked = false) {wait : Binary64}
    (hwait : waitTooLong wait = false) (work : Nat → StoreM α) (writes : List Write)
    (answer : Except StoreFault α)
    (hwork : ∀ t : Store, t.isOpen s.batches.length = true →
      t.viewOf s.batches.length = s.committed →
      t.Makes s.batches.length (work s.batches.length) writes answer) :
    ∃ t, s.perform (withBatch wait fun b => do
        let a ← work b
        commit b
        return a) = (answer, t) ∧
      t.IsReliable ∧ t.locked = false ∧
      (answer.isOk = true → t.committed = s.committed.written writes) ∧
      (answer.isOk = false → t.committed = s.committed) := by
  have hopen : (s.called .openSession).withOpened.isOpen s.batches.length = true := by
    rw [isOpen_withOpened]
    exact Bool.or_eq_true_iff.2 (.inr (beq_self_eq_true _))
  have hview : (s.called .openSession).withOpened.viewOf s.batches.length = s.committed :=
    viewOf_withOpened _
  obtain ⟨trace, hrun⟩ := (hwork _ hopen hview).perform hs
  rw [hview] at hrun
  generalize hu : ((s.called .openSession).withOpened.withView s.batches.length
    (s.committed.written writes)).withTrace trace = u at hrun
  have hstill : u.isOpen s.batches.length = true := by
    rw [← hu]
    exact (isOpen_withView _ _ _ _).trans hopen
  have hrows : u.viewOf s.batches.length = s.committed.written writes := by
    rw [← hu]
    exact viewOf_withView hopen _
  have hkept : u.committed = s.committed := by
    rw [← hu]
    rfl
  have hlocked : u.locked = true := by
    rw [← hu]
    rfl
  have hreliable : u.IsReliable := by
    rw [← hu]
    exact hs
  rw [perform_withBatch hfree hwait, hs.strike?]
  dsimp only
  rw [perform_ensuring]
  cases answer with
  | ok a =>
    obtain ⟨after, hcommit⟩ := hreliable.perform_commit hstill hlocked
    have hended := isOpen_of_commit hstill
    rw [perform_bind_of_ok (congrArg Prod.fst hrun), hrun, perform_bind, hcommit]
    dsimp only
    rw [hcommit] at hended
    dsimp only at hended
    rw [perform_pure, perform_leave, hended]
    exact ⟨_, rfl, hreliable, rfl, fun _ => hrows, nofun⟩
  | error fault =>
    obtain ⟨after, hdiscard⟩ := hreliable.perform_discard hstill hlocked
    rw [perform_bind_of_error (congrArg Prod.fst hrun), hrun, perform_leave, if_pos hstill,
      hdiscard]
    exact ⟨_, rfl, hreliable, rfl, nofun, fun _ => hkept⟩

theorem free_of_withBatch {wait : Binary64} {body : Nat → StoreM α} {a : α}
    (h : (s.perform (withBatch wait body)).1 = .ok a) :
    waitTooLong wait = false ∧ s.locked = false := by
  unfold withBatch at h
  rw [perform_bind, perform_openBatch] at h
  cases hwait : waitTooLong wait with
  | true =>
    rw [hwait] at h
    cases h
  | false =>
    refine ⟨rfl, ?_⟩
    cases hlocked : s.locked with
    | true =>
      rw [hwait, hlocked] at h
      cases h
    | false => rfl

theorem keep_eq (y : Sighting) (wait : Binary64) :
    keep y wait = withBatch wait fun b => do
      let a ← saveSighting b y
      commit b
      return a := by
  unfold keep
  congr
  funext b
  exact congrArg (saveSighting b y >>= ·) (funext fun _ => (bind_pure (commit b)).symm)

/-- With a reliable engine an observation is kept unless what is there cannot be read. -/
theorem perform_keep (hs : s.IsReliable) (hfree : s.locked = false) {wait : Binary64}
    (hwait : waitTooLong wait = false) (x : Observation) :
    let draft := s.committed.draft (.save x)
    ∃ t, s.perform (keep x wait) = (draft.answer, t) ∧ t.IsReliable ∧ t.locked = false ∧
      (draft.answer.isOk = true → t.committed = s.committed.written draft.writes) := by
  intro draft
  obtain ⟨t, hrun, hreliable, hunlocked, hcommitted, -⟩ :=
    perform_batched hs hfree hwait (fun b => save b x) draft.writes draft.answer
      fun t ht hview => by
        have hmakes := makes_edit ht (.save x)
        rw [hview] at hmakes
        exact hmakes
  exact ⟨t, (congrArg s.perform (keep_eq x wait)).trans hrun, hreliable, hunlocked, hcommitted⟩

/-! ## Scanning and pruning -/

/-- What a scan of a prefix shows of a table that can be scanned. -/
theorem reads_ofPrefix {view : View} (hview : s.CanRead view) (h : (s.table view).IsScannable)
    {pre : Bytes} (hpre : Key.root <+: pre) :
    s.Reads view (Cursor.ofPrefix view pre).toList
      (.ok (((s.table view).range pre (Key.upperBound? pre)).filterMap shown?)) := by
  have hread := Cursor.reads_toList hview pre
  rw [Cursor.readRows_of_isSound (h.range hpre)] at hread
  exact hread

section

variable {I : Store → Prop} {F : StoreFault → Prop}

theorem Untouched.toList {view : View} (h : Untouched view I F) {cursor : Cursor}
    (hview : cursor.view = view) : Keeps I F cursor.toList := by
  rw [Cursor.toList_eq]
  exact Keeps.bind (h.pull hview none) fun _ => Keeps.pure _

theorem Untouched.olderThan (h : Untouched (.batch b) I F) {cutoff : Time.DateTime}
    (hcutoff : cutoff.offset.isSome = true) : Keeps I F (olderThan b cutoff) := by
  unfold Store.olderThan
  rw [hcutoff]
  exact Keeps.bind (h.toList rfl) fun _ => Keeps.pure _

end

/-- Deletions of what was observed, one after the other, all come to their ends. -/
theorem makes_deletions {table : Table} (h : table.IsScannable) (b : Nat)
    (list : List Observation) :
    ∃ writes, ∀ s : Store, s.isOpen b = true → s.viewOf b = table →
      s.Makes b (list.forM fun x => delete b x.pairId x.seconds) writes (.ok ⟨⟩) := by
  induction list generalizing table with
  | nil => exact ⟨[], fun s hopen _ => .pure hopen _⟩
  | cons x rest ih =>
    let change := Edit.delete x.pairId x.seconds
    have hanswer : (table.draft change).answer = .ok ⟨⟩ := by
      refine h.answer fun pairId seconds heq => ?_
      rw [← (Edit.delete.inj heq).2]
      exact (Bytes.isModerate_second x.inTime).fits
    have hleft : (table.written (table.draft change).writes).IsScannable := h.written_draft nofun
    obtain ⟨writes, hrest⟩ := ih hleft
    refine ⟨(table.draft change).writes ++ writes, fun s hopen hview => ?_⟩
    have hfirst := makes_edit hopen change
    rw [hview, hanswer] at hfirst
    refine .bind hopen hfirst fun t ht htable => hrest t ht ?_
    rw [htable, hview]

/-- What a pruning does before its commit comes to its end. -/
theorem makes_sweep {table : Table} (h : table.IsScannable) (b : Nat) {cutoff : Time.DateTime}
    (hcutoff : cutoff.offset.isSome = true) :
    ∃ stale writes, ∀ s : Store, s.isOpen b = true → s.viewOf b = table →
      s.Makes b (sweep b cutoff) writes (.ok stale) := by
  let stale := ((table.range Key.root (Key.upperBound? Key.root)).filterMap shown?).filter
    fun x => x.time.isBefore? cutoff == some true
  obtain ⟨writes, hdeletes⟩ := makes_deletions h b stale
  refine ⟨stale, writes, fun s hopen hview => ?_⟩
  have hbatch : s.CanRead (.batch b) := hopen
  have hscan : (s.table (.batch b)).IsScannable := by
    rw [show s.table (.batch b) = table from hview]
    exact h
  have hreads : s.Reads (.batch b) (olderThan b cutoff) (.ok stale) := by
    unfold olderThan
    rw [hcutoff]
    have hall := reads_ofPrefix hbatch hscan List.prefix_rfl
    rw [show s.table (.batch b) = table from hview] at hall
    exact hall.bind (Works.pure _)
  have hrest := (untouched_consulted s (.batch b)).olderThan hcutoff
  refine .bind_quiet hopen (.of_reads hopen hreads hrest) fun t ht hsame => ?_
  have hdelete := hdeletes t ht (hsame.trans hview)
  rw [← List.append_nil writes]
  exact .bind ht hdelete fun u hu _ => .pure hu stale

/-- With a reliable engine a table that can be scanned can be pruned. -/
theorem prune_isOk (hs : s.IsReliable) (hfree : s.locked = false) (h : s.committed.IsScannable)
    {cutoff : Time.DateTime} (hcutoff : cutoff.offset.isSome = true) {wait : Binary64}
    (hwait : waitTooLong wait = false) :
    ∃ count, (s.perform (prune cutoff wait)).1 = .ok count := by
  obtain ⟨stale, writes, hwork⟩ := makes_sweep h s.batches.length hcutoff
  obtain ⟨t, hrun, -⟩ :=
    perform_batched hs hfree hwait (fun b => sweep b cutoff) writes (.ok stale) hwork
  refine ⟨stale.length, ?_⟩
  have hbatch : s.perform (withBatch wait fun b => sweepAndCommit b cutoff) = (.ok stale, t) := hrun
  rw [prune_eq, perform_bind, hbatch]
  rfl

end Store

end RateLedger
