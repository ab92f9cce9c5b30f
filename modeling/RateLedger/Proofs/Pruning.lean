import RateLedger.Proofs.IdentityRows
import RateLedger.Store.Retention

/-!
# What pruning does

Pruning is one batch: it lists what is older than the cutoff, deletes it observation by observation,
and commits. Each deletion keeps the table of the batch the table of a history, so the next one
finds the identity rows in order, and in the end the table holds what is not older than the cutoff,
with the identity rows that belong to it (`Mirrors.prune`). The committed table is only replaced by
the last call that can still fail, so whatever fails before leaves it as it was (`spares_prune`).
-/

namespace RateLedger

theorem Time.DateTime.instant_of_utc {now : Time.DateTime} (h : now.offset = some 0) :
    now.instant = now.wall := by
  unfold Time.DateTime.instant
  rw [h]
  simp

/-- An observation is older than a cutoff. -/
def Observation.isOlder (cutoff : Time.DateTime) (x : Observation) : Bool :=
  x.seconds * Time.microsPerSecond < cutoff.instant

theorem Observation.isBefore?_eq_isOlder {cutoff : Time.DateTime}
    (h : cutoff.offset.isSome = true) (x : Observation) :
    (x.time.isBefore? cutoff == some true) = x.isOlder cutoff := by
  have hoffset : x.time.offset.isSome = true := rfl
  unfold Time.DateTime.isBefore? Time.DateTime.comparable isOlder
  rw [x.instant_time, h, hoffset]
  simp

/-- The history without the places of some observations. -/
def History.cleared (h : History) (list : List Observation) : History :=
  list.foldl (fun h x => h.deleted x.pairId x.seconds) h

/-- The table after the entries of some observations are deleted. -/
def Table.cleared (table : Table) (list : List Observation) : Table :=
  list.foldl (fun table x => table.deleted x.pairId x.seconds) table

theorem History.edits_deletions (h : History) (list : List Observation) :
    h.edits (list.map fun x => .delete x.pairId x.seconds) = h.cleared list :=
  List.foldl_map

theorem History.has_cleared {h : History} {list : List Observation} {y : Observation} :
    (h.cleared list).Has y ↔
      h.Has y ∧ ∀ x ∈ list, ¬(y.pairId = x.pairId ∧ y.seconds = x.seconds) := by
  induction list generalizing h with
  | nil => simp [cleared]
  | cons x rest ih =>
    have hstep : (h.cleared (x :: rest)).Has y ↔
        ((h.deleted x.pairId x.seconds).cleared rest).Has y := Iff.rfl
    rw [hstep, ih, has_deleted, List.forall_mem_cons, Nat.cast_inj, and_assoc]

theorem History.IsNewest.cleared {h : History} {list : List Observation} {x : Observation}
    (hx : h.IsNewest x) (hleft : (h.cleared list).Has x) : (h.cleared list).IsNewest x := by
  refine ⟨hleft, fun y hy hpair => ?_⟩
  exact hx.le y (has_cleared.1 hy).1 hpair

theorem Table.Holds.cleared {table : Table} {h : History} {list : List Observation}
    (hholds : table.Holds h) (hlist : ∀ x ∈ list, x.IsOrdinary) :
    (table.cleared list).Holds (h.cleared list) := by
  induction list generalizing table h with
  | nil => exact hholds
  | cons x rest ih =>
    have hx := hlist x List.mem_cons_self
    have hdeleted := hholds.deleted hx.pairId (Bytes.isModerate_second x.inTime)
    exact ih hdeleted fun y hy => hlist y (List.mem_cons_of_mem _ hy)

/-- What is left of a list is the history without the rest of the list. -/
theorem History.Lists.cleared {h : History} {list : List Observation} (hlists : h.Lists list)
    (old : Observation → Bool) :
    (h.cleared (list.filter old)).Lists (list.filter fun x => !old x) := by
  refine ⟨fun x => ?_, hlists.ordered.filter _⟩
  rw [History.has_cleared, List.mem_filter, hlists.mem]
  refine and_congr_right fun hx => ?_
  constructor
  · rintro hnew y hy ⟨hpair, hsecond⟩
    obtain ⟨hmem, hold⟩ := List.mem_filter.1 hy
    rw [hx.eq ((hlists.mem y).1 hmem) hpair hsecond, hold] at hnew
    cases hnew
  · intro hfree
    cases hold : old x with
    | false => rfl
    | true =>
      have hmem : x ∈ list.filter old := List.mem_filter.2 ⟨(hlists.mem x).2 hx, hold⟩
      exact absurd ⟨rfl, rfl⟩ (hfree x hmem)

namespace Store

/-- The pruning in its batch, up to the commit. -/
def sweep (b : Nat) (cutoff : Time.DateTime) : StoreM (List Observation) := do
  let stale ← olderThan b cutoff
  stale.forM fun x => delete b x.pairId x.seconds
  return stale

/-- The pruning in its batch. -/
def sweepAndCommit (b : Nat) (cutoff : Time.DateTime) : StoreM (List Observation) := do
  let stale ← sweep b cutoff
  commit b
  return stale

theorem prune_eq (cutoff : Time.DateTime) (wait : Binary64) :
    prune cutoff wait = do
      let stale ← withBatch wait fun b => sweepAndCommit b cutoff
      note .debug "services.compaction" ("Compaction before " ++ Time.Iso.ofDateTime cutoff ++
        " cleaned " ++ Number.Decimal.ofNat stale.length ++ " items")
      return stale.length := by
  unfold prune sweepAndCommit sweep
  simp only [bind_assoc, pure_bind]

variable {s : Store} {b : Nat}

/-- Edits of an open batch one after another. -/
theorem Shows.edits_forM {step : α → StoreM Unit} {edit : Table → α → Table} {table : Table}
    (h : s.Shows b table) {list : List α}
    (hstep : ∀ a ∈ list, ∀ (t : Store) (view : Table), t.Shows b view →
      t.Edits b (step a) (edit view a) ∧ (edit view a).IsSound) :
    s.Edits b (list.forM step) (list.foldl edit table) := by
  induction list generalizing s table with
  | nil => exact h.edits_nothing
  | cons a rest ih =>
    obtain ⟨hedits, hsound⟩ := hstep a List.mem_cons_self s table h
    refine h.edits_bind hsound hedits fun t ht => ih ht fun c hc => ?_
    exact hstep c (List.mem_cons_of_mem _ hc)

/-- Before the commit, everything shown that is older than the cutoff is deleted and told. -/
theorem Shows.works_sweep {table : Table} (hshows : s.Shows b table) {cutoff : Time.DateTime}
    (hcutoff : cutoff.offset.isSome = true) :
    let stale := (table.rows.filterMap shown?).filter (·.isOlder cutoff)
    s.Works (sweep b cutoff) (.ok stale) (s.withView b (table.cleared stale)) fun fault mid =>
      fault.isOutage = true ∧ ∃ left : Table, left.IsSound ∧ mid = s.withView b left := by
  intro stale
  have hview : s.CanRead (.batch b) := hshows.isOpen
  have hseen : s.table (.batch b) = table := hshows.view
  have hscan := reads_all_of_isSound hview (hseen ▸ hshows.sound)
  rw [hseen] at hscan
  have hfilter : (fun x : Observation => x.time.isBefore? cutoff == some true) =
      fun x => x.isOlder cutoff := funext (Observation.isBefore?_eq_isOlder hcutoff)
  have holder : s.Reads (.batch b) (olderThan b cutoff) (.ok stale) := by
    unfold olderThan
    rw [hcutoff, hfilter]
    exact hscan.bind (Works.pure _)
  have hstale : ∀ x ∈ stale, Key.fits x.seconds = true := fun x _ =>
    (Bytes.isModerate_second x.inTime).fits
  have hdeletes : s.Edits b (stale.forM fun x => delete b x.pairId x.seconds)
      (table.cleared stale) := by
    refine hshows.edits_forM fun x hx t view ht => ⟨?_, ?_⟩
    · exact ht.edits_delete x.pairId (hstale x hx)
    · exact ht.sound.deleted x.pairId x.seconds
  unfold sweep
  refine Works.bind (holder.mono fun fault mid hmid => ⟨hmid.1, ?_⟩) ?_
  · rcases hmid.2 with rfl | rfl
    · exact ⟨table, hshows.sound, by rw [← hshows.view, withView_viewOf hshows.isOpen]⟩
    · exact ⟨s.committed, hshows.committed, rfl⟩
  · exact Works.bind hdeletes (Works.pure _)

/-- In its own batch the pruning comes to the commit, or it is stopped before and all is dropped. -/
theorem Shows.perform_sweep {table : Table} {h : History} (hshows : s.Shows b table)
    (hholds : table.Holds h) {cutoff : Time.DateTime} (hcutoff : cutoff.offset.isSome = true) :
    ∃ list, h.Lists list ∧
      let stale := list.filter (·.isOlder cutoff)
      let body := ensuring (sweepAndCommit b cutoff) (leave b)
      ∃ events,
        (Fine events ∧
          let t := (s.withView b (table.cleared stale)).withTrace (events ++ s.trace)
          s.perform body =
            ((t.perform (commit b)).1.map fun _ => stale, (t.perform (commit b)).2)) ∨
        (¬s.IsReliable ∧ ∃ fault, ∃ left, fault.isOutage = true ∧
          let t := (s.withView b left).withTrace (events ++ s.trace)
          s.perform body =
            ((t.perform (discard b)).1.bind fun _ => .error fault, (t.perform (discard b)).2)) := by
  have hworks := hshows.works_sweep hcutoff
  refine ⟨_, hholds.lists, ?_⟩
  intro stale body
  unfold body sweepAndCommit
  obtain ⟨events, ⟨hfine, hrun⟩ | ⟨-, hplan, fault, mid, ⟨hout, left, -, rfl⟩, hrun⟩⟩ :=
    hworks.run s.trace
  · refine ⟨events, .inl ⟨hfine, ?_⟩⟩
    intro t
    have hopen : t.isOpen b = true := (isOpen_withView s b _ b).trans hshows.isOpen
    -- The commit ends the batch, so there is nothing to do on leaving it.
    have hended := isOpen_of_commit hopen
    have hsweep : s.perform (sweep b cutoff) = (.ok stale, t) := hrun
    rw [perform_ensuring, perform_bind, hsweep]
    dsimp only
    rw [perform_bind]
    generalize t.perform (commit b) = out at hended ⊢
    rcases out with ⟨fault | _, v⟩
    · dsimp only at hended ⊢
      rw [perform_leave, hended]
      rfl
    · dsimp only at hended ⊢
      rw [perform_pure, perform_leave, hended]
      rfl
  · -- The batch is still open, so it is discarded on leaving it.
    refine ⟨events, .inr ⟨hplan, fault, left, hout, ?_⟩⟩
    intro t
    have hopen : t.isOpen b = true := (isOpen_withView s b _ b).trans hshows.isOpen
    have hsweep : s.perform (sweep b cutoff) = (.error fault, t) := hrun
    rw [perform_ensuring, perform_bind, hsweep]
    dsimp only
    rw [perform_leave, if_pos hopen]

/-- With a reliable engine and no batch open, the pruning tells how many observations are older than
the cutoff and leaves the history without them. -/
theorem Mirrors.prune {l : Ledger} (h : s.Mirrors l) (hfree : s.locked = false)
    {cutoff : Time.DateTime} (hcutoff : cutoff.offset.isSome = true) {wait : Binary64}
    (hwait : waitTooLong wait = false) :
    ∃ list, l.committed.Lists list ∧
      let stale := list.filter (·.isOlder cutoff)
      ∃ t, s.perform (prune cutoff wait) = (.ok stale.length, t) ∧
        t.Mirrors ⟨l.committed.cleared stale, none, l.opened + 1⟩ := by
  have hopened : (s.called .openSession).withOpened.Mirrors l.withOpened :=
    (h.withTrace _).withOpened (h.pending_of_free hfree)
  have hedits := l.editsOf?_withOpened
  have hholds := hopened.views l.opened [] hedits
  obtain ⟨list, hlists, events, ⟨-, hrun⟩ | ⟨hplan, -⟩⟩ :=
    (hopened.shows hedits).perform_sweep hholds hcutoff
  · refine ⟨list, hlists, ?_⟩
    intro stale
    have hcleared : (((s.called .openSession).withOpened.viewOf l.opened).cleared stale).Holds
        (l.committed.edits (stale.map fun x => .delete x.pairId x.seconds)) := by
      rw [History.edits_deletions]
      refine hholds.cleared fun x hx => ?_
      exact h.committed.ordinary x ((hlists.mem x).1 (List.mem_filter.1 hx).1)
    have hswept := (hopened.withView hedits hcleared).withTrace
      (events ++ (s.called .openSession).withOpened.trace)
    have hchanges := l.withOpened.editsOf?_withEdits l.opened
      (stale.map fun x => .delete x.pairId x.seconds)
    have hcommitted := hswept.commit l.opened
    have hok := hswept.commit_ok hchanges
    rw [Ledger.call, hchanges] at hcommitted
    dsimp only at hrun
    rw [hok] at hrun
    rw [prune_eq, perform_bind, perform_withBatch hfree hwait, h.reliable.strike?, h.opened]
    dsimp only
    rw [hrun]
    refine ⟨_, rfl, ?_⟩
    rw [← History.edits_deletions]
    exact hcommitted.withNote _ _ _
  · exact absurd hopened.reliable hplan

/-- A pruning that finds nothing older than the cutoff changes no row. -/
theorem Mirrors.prune_nothing {l : Ledger} (h : s.Mirrors l) (hfree : s.locked = false)
    {cutoff : Time.DateTime} (hcutoff : cutoff.offset.isSome = true) {wait : Binary64}
    (hwait : waitTooLong wait = false) {list : List Observation} (hlist : l.committed.Lists list)
    (hnew : ∀ x ∈ list, x.isOlder cutoff = false) :
    (s.perform (Store.prune cutoff wait)).1 = .ok 0 ∧
      (s.perform (Store.prune cutoff wait)).2.committed = s.committed := by
  obtain ⟨other, hother, t, hrun, hpruned⟩ := h.prune hfree hcutoff hwait
  obtain rfl := hother.unique hlist
  have hnothing : other.filter (·.isOlder cutoff) = [] := by
    rw [List.filter_eq_nil_iff]
    intro x hx
    simp [hnew x hx]
  rw [hnothing] at hrun hpruned
  rw [hrun]
  exact ⟨rfl, hpruned.committed.unique h.committed⟩

/-! ## When the engine fails -/

/-- A read, a write or a commit failed. -/
def IsHit (events : List EngineEvent) : Prop :=
  ∃ event ∈ events, event.outage ≠ none ∧
    (event.call = .read ∨ event.call = .write ∨ event.call = .commit)

/-- No session failed to close. -/
def ClosesWell (events : List EngineEvent) : Prop :=
  ∀ event ∈ events, event.call = .closeSession → event.outage = none

/-- An outcome in which nothing was committed: a failure, and one of the activities of the store
unless the session failed to close. -/
def Drops (s : Store) (out : Except StoreFault α × Store) : Prop :=
  ∃ events, out.2.trace = events ++ s.trace ∧ out.2.committed = s.committed ∧
    ∃ fault, out.1 = .error fault ∧ (ClosesWell events → fault.isBackend = true)

/-- An outcome in which nothing was committed if a read, a write or a commit failed. -/
def Spares (s : Store) (out : Except StoreFault α × Store) : Prop :=
  ∃ events, out.2.trace = events ++ s.trace ∧
    (IsHit events → out.2.committed = s.committed ∧
      ∃ fault, out.1 = .error fault ∧ (ClosesWell events → fault.isBackend = true))

section

variable {t : Store} {events : List EngineEvent}

theorem Drops.spares {out : Except StoreFault α × Store} (h : t.Drops out)
    (htrace : t.trace = events ++ s.trace) (hcommitted : t.committed = s.committed) :
    s.Spares out := by
  obtain ⟨late, hlate, hkept, fault, hfault, hbackend⟩ := h
  refine ⟨late ++ events, by rw [hlate, htrace, List.append_assoc], fun _ => ?_⟩
  refine ⟨hkept.trans hcommitted, fault, hfault, fun hwell => hbackend fun event hmem => ?_⟩
  exact hwell event (List.mem_append_left _ hmem)

theorem Spares.after {out : Except StoreFault α × Store} (h : t.Spares out) (hfine : Fine events)
    (htrace : t.trace = events ++ s.trace) (hcommitted : t.committed = s.committed) :
    s.Spares out := by
  obtain ⟨late, hlate, hspares⟩ := h
  refine ⟨late ++ events, by rw [hlate, htrace, List.append_assoc], fun hhit => ?_⟩
  obtain ⟨event, hmem, houtage, hcall⟩ := hhit
  rcases List.mem_append.1 hmem with hmem | hmem
  · obtain ⟨hkept, fault, hfault, hbackend⟩ := hspares ⟨event, hmem, houtage, hcall⟩
    refine ⟨hkept.trans hcommitted, fault, hfault, fun hwell => hbackend fun other hother => ?_⟩
    exact hwell other (List.mem_append_left _ hother)
  · exact absurd (hfine event hmem) houtage

theorem Spares.map {out : Except StoreFault α × Store} (h : s.Spares out) (f : α → β) :
    s.Spares (out.1.map f, out.2) := by
  obtain ⟨events, htrace, hspares⟩ := h
  refine ⟨events, htrace, fun hhit => ?_⟩
  obtain ⟨hkept, fault, hfault, hbackend⟩ := hspares hhit
  exact ⟨hkept, fault, by rw [hfault]; rfl, hbackend⟩

end

/-- A fault of the activities is only replaced when the session fails to close. -/
theorem fault_of_close (t : Store) {result : Except StoreFault α} {fault : StoreFault}
    (hresult : result = .error fault) (hfault : fault.isBackend = true)
    (earlier : List EngineEvent) :
    ∃ other, ((t.answer .closeSession .engine).bind fun _ => result) = .error other ∧
      (ClosesWell (⟨.closeSession, t.strike? .closeSession⟩ :: earlier) →
        other.isBackend = true) := by
  unfold answer
  cases hclose : t.strike? .closeSession with
  | none => exact ⟨fault, hresult, fun _ => hfault⟩
  | some outage =>
    refine ⟨.engine outage.cause, rfl, fun hwell => ?_⟩
    have hnone := hwell _ List.mem_cons_self rfl
    cases hnone

/-- A rollback that fails replaces a fault by its own, which is of an activity. -/
theorem fault_of_rollback (t : Store) (fault : StoreFault) :
    ∃ other, ((t.answer .rollback (.failed .rollback)).bind fun _ =>
      (.error fault : Except StoreFault α)) = .error other ∧
      (other = fault ∨ other.isBackend = true) := by
  unfold answer
  cases t.strike? .rollback with
  | none => exact ⟨fault, rfl, .inl rfl⟩
  | some outage => exact ⟨.failed .rollback outage.cause, rfl, .inr rfl⟩

/-- Ending a batch in place of its commit, after a fault. -/
theorem drops_discard (h : s.isOpen b = true) (hlocked : s.locked = true) {fault : StoreFault}
    (hfault : fault.isBackend = true) :
    s.Drops ((s.perform (discard b)).1.bind fun _ => (.error fault : Except StoreFault α),
      (s.perform (discard b)).2) := by
  have hending := ending_of_locked (s := s.called .rollback) hlocked
  rw [perform_discard h, perform_close, hending]
  refine ⟨[⟨.closeSession, (s.called .rollback).strike? .closeSession⟩,
    ⟨.rollback, s.strike? .rollback⟩], rfl, rfl, ?_⟩
  obtain ⟨other, hrolled, hother⟩ := fault_of_rollback (α := α) s fault
  have hassoc : (((s.called .rollback).answer .closeSession .engine).bind fun _ =>
      s.answer .rollback (.failed .rollback)).bind (fun _ => (.error fault : Except StoreFault α)) =
      ((s.called .rollback).answer .closeSession .engine).bind fun _ => .error other := by
    rw [← hrolled]
    cases (s.called .rollback).answer .closeSession .engine <;> rfl
  dsimp only
  rw [hassoc]
  exact fault_of_close _ rfl (hother.elim (fun h => h ▸ hfault) id) _

theorem spares_commit (h : s.isOpen b = true) (hlocked : s.locked = true) :
    s.Spares (s.perform (commit b)) := by
  rw [perform_commit h]
  cases hcommit : s.strike? .commit with
  | none =>
    dsimp only
    rw [perform_close]
    refine ⟨[⟨.closeSession, (s.called .commit).strike? .closeSession⟩, ⟨.commit, none⟩], ?_, ?_⟩
    · rw [← hcommit]
      rfl
    · intro hhit
      simp [IsHit] at hhit
  | some outage =>
    dsimp only
    rw [perform_close]
    generalize hnote : (s.called .commit).withNote .warning "db.store"
      "Batch commit failed, rolling back" = t
    refine ⟨[⟨.closeSession, (t.called .rollback).strike? .closeSession⟩,
      ⟨.rollback, t.strike? .rollback⟩, ⟨.commit, some outage⟩], ?_, fun _ => ⟨?_, ?_⟩⟩
    · rw [← hcommit, ← hnote]
      rfl
    · rw [← hnote]
      rfl
    · have hending : (t.called .rollback).ending = _ := ending_of_locked (hnote ▸ hlocked)
      obtain ⟨other, hrolled, hother⟩ :=
        fault_of_rollback (α := Unit) t (.failed .commit outage.cause)
      dsimp only
      rw [hending]
      exact fault_of_close _ hrolled (hother.elim (fun h => h ▸ rfl) id) _

theorem Shows.spares_sweepAndCommit {h : History} (hshows : s.Shows b s.committed)
    (hlocked : s.locked = true) (hholds : s.committed.Holds h) {cutoff : Time.DateTime}
    (hcutoff : cutoff.offset.isSome = true) :
    s.Spares (s.perform (ensuring (sweepAndCommit b cutoff) (leave b))) := by
  obtain ⟨list, -, events, ⟨hfine, hrun⟩ | ⟨-, fault, left, hout, hrun⟩⟩ :=
    hshows.perform_sweep hholds hcutoff
  · dsimp only at hrun
    rw [hrun]
    have hisOpen : ((s.withView b (s.committed.cleared (list.filter (·.isOlder cutoff)))).withTrace
        (events ++ s.trace)).isOpen b = true := (isOpen_withView _ _ _ _).trans hshows.isOpen
    exact ((spares_commit hisOpen hlocked).after hfine rfl rfl).map _
  · dsimp only at hrun
    rw [hrun]
    have hisOpen : ((s.withView b left).withTrace (events ++ s.trace)).isOpen b = true :=
      (isOpen_withView _ _ _ _).trans hshows.isOpen
    exact (drops_discard hisOpen hlocked (StoreFault.isBackend_of_isOutage hout)).spares rfl rfl

/-- Whatever the engine does, a pruning in which a read, a write or the commit fails leaves the
committed table as it was. -/
theorem spares_prune {h : History} (hholds : s.committed.Holds h) (hfree : s.locked = false)
    {cutoff : Time.DateTime} (hcutoff : cutoff.offset.isSome = true) {wait : Binary64}
    (hwait : waitTooLong wait = false) : s.Spares (s.perform (prune cutoff wait)) := by
  rw [prune_eq, perform_bind, perform_withBatch hfree hwait]
  cases hopen : s.strike? .openSession with
  | some outage =>
    refine ⟨[⟨.openSession, some outage⟩], by simp [hopen], fun hhit => ?_⟩
    simp [IsHit] at hhit
  | none =>
    have hshows : (s.called .openSession).withOpened.Shows s.batches.length s.committed := by
      refine ⟨?_, viewOf_withOpened _, hholds.isSound, hholds.isSound⟩
      rw [isOpen_withOpened]
      exact Bool.or_eq_true_iff.2 (.inr (beq_self_eq_true _))
    have hspares := hshows.spares_sweepAndCommit rfl hholds hcutoff
    have hfine : Fine [⟨.openSession, none⟩] := by simp [Fine]
    have htrace : (s.called .openSession).withOpened.trace = [⟨.openSession, none⟩] ++ s.trace := by
      rw [← hopen]
      rfl
    have hall := hspares.after hfine htrace rfl
    dsimp only
    generalize (s.called .openSession).withOpened.perform _ = out at hall ⊢
    rcases out with ⟨fault | stale, t⟩
    · exact hall.map List.length
    · exact hall.map List.length

/-! ## Pruning after any run -/

/-- After any ordinary calls that left no batch open, and for a cutoff in UTC: a pruning tells how
many stored observations are older than the cutoff, and removes them from what a full scan shows. A
pair whose newest observation is not older is read as before, and no other pair is found; only where
the identity key of a text is the key of an observation that is left, the row there is refused as
corrupted, and such a text is not plain. Pruning again changes nothing. With an engine that fails,
the committed table stays as it was if a read, a write or the commit failed. -/
theorem prune_removes_older (calls : List Call) (hcalls : ∀ call ∈ calls, call.IsOrdinary)
    (hfree : (fresh.after calls).locked = false) (cutoff : Time.DateTime)
    (hcutoff : cutoff.offset = some 0) (wait : Binary64) (hwait : waitTooLong wait = false) :
    let s := fresh.after calls
    let t := (s.perform (prune cutoff wait)).2
    (∃ list, (s.perform (Cursor.all .committed).toList).1 = .ok list ∧
      let kept := list.filter fun x => !x.isOlder cutoff
      (s.perform (prune cutoff wait)).1 = .ok (list.filter (·.isOlder cutoff)).length ∧
      (t.perform (Cursor.all .committed).toList).1 = .ok kept ∧
      (∀ x ∈ kept, (∀ y ∈ list, y.pairId = x.pairId → y.seconds ≤ x.seconds) →
        (s.perform (newest .committed x.pairId)).1 = .ok x ∧
        (t.perform (newest .committed x.pairId)).1 = .ok x) ∧
      ∀ pairId, (∀ x ∈ kept, x.pairId ≠ pairId) →
        ((∀ x ∈ kept, Key.ofObservation x ≠ Key.identity pairId) →
          (t.perform (newest .committed pairId)).1 = .error (.notFound pairId)) ∧
        ∀ x ∈ kept, Key.ofObservation x = Key.identity pairId → ¬IsPlain pairId ∧
          (t.perform (newest .committed pairId)).1 =
            .error (.foreignIdentity pairId x.pairId)) ∧
    (t.perform (prune cutoff wait)).1 = .ok 0 ∧
    (t.perform (prune cutoff wait)).2.committed = t.committed ∧
    ∀ plan : FaultPlan, ({ s with plan } : Store).Spares
      (({ s with plan } : Store).perform (prune cutoff wait)) := by
  intro s t
  have h : s.Mirrors (Ledger.fresh.after calls) := mirrors_after hcalls
  have hknown : cutoff.offset.isSome = true := by
    rw [hcutoff]
    rfl
  obtain ⟨list, hlists, u, hrun, hpruned⟩ := h.prune hfree hknown hwait
  obtain ⟨shown, hscan, hshown⟩ := h.scan (Ledger.history?_committed _)
  obtain rfl := hshown.unique hlists
  have ht : t = u := congrArg Prod.snd hrun
  rw [← ht] at hrun hpruned
  have hkept := hlists.cleared (·.isOlder cutoff)
  refine ⟨⟨shown, hscan, congrArg Prod.fst hrun, ?_, fun x hx hlast => ?_, fun pairId hnone => ?_⟩,
    ?_⟩
  · obtain ⟨left, hleft, hlisted⟩ := hpruned.scan (Ledger.history?_committed _)
    rw [hleft, hlisted.unique hkept]
  · have hold : (Ledger.fresh.after calls).committed.IsNewest x := by
      refine ⟨(hlists.mem x).1 (List.mem_filter.1 hx).1, fun y hy hpair => ?_⟩
      exact hlast y ((hlists.mem y).2 hy) hpair
    have hplain := (h.committed.ordinary x hold.has).pairId
    rw [h.newest, hpruned.newest]
    constructor
    · exact h.committed.readNewest_of_isNewest hplain hold rfl
    · exact hpruned.committed.readNewest_of_isNewest hplain (hold.cleared ((hkept.mem x).1 hx)) rfl
  · rw [hpruned.newest]
    constructor
    · intro hfree
      exact hpruned.committed.readNewest_of_free (fun x hx => hnone x ((hkept.mem x).2 hx))
        fun x hx => hfree x ((hkept.mem x).2 hx)
    · intro x hx hkey
      exact hpruned.committed.readNewest_of_entry ((hkept.mem x).1 hx) hkey
  · have hagain := hpruned.prune_nothing hpruned.locked hknown hwait hkept fun x hx => by
      simpa using (List.mem_filter.1 hx).2
    refine ⟨hagain.1, hagain.2, fun plan => ?_⟩
    exact spares_prune (s := { s with plan }) h.committed hfree hknown hwait

/-- The time two and a half seconds after the epoch. -/
def halfPastTwo : Time.DateTime := ⟨2500000, some 0, by decide, by decide⟩

theorem prune_outOfOrder :
    (∀ call ∈ outOfOrder, call.IsOrdinary) ∧ (fresh.after outOfOrder).locked = false ∧
    halfPastTwo.offset = some 0 ∧ waitTooLong ⟨0⟩ = false ∧
    ((fresh.after outOfOrder).perform (prune halfPastTwo ⟨0⟩)).1 = .ok 1 := by
  have h := mirrors_after isOrdinary_outOfOrder
  have hfree : (fresh.after outOfOrder).locked = false := h.locked
  have hwait : waitTooLong ⟨0⟩ = false := by decide
  refine ⟨isOrdinary_outOfOrder, hfree, rfl, hwait, ?_⟩
  obtain ⟨⟨list, hscan, hcount, -⟩, -⟩ := prune_removes_older outOfOrder isOrdinary_outOfOrder hfree
    halfPastTwo rfl ⟨0⟩ hwait
  obtain ⟨shown, hshown, hlists⟩ := h.scan (Ledger.history?_committed _)
  rw [hlists.unique lists_outOfOrder, hscan] at hshown
  obtain rfl : list = [early, longer] := Except.ok.inj hshown
  rw [hcount]
  decide

/-- The epoch in UTC. -/
def epoch : Time.DateTime := ⟨0, some 0, by decide, by decide⟩

/-- A text without observations need not come out as not found: its identity key may be the key of
an observation. And a pruning in which a read fails need not fail with a fault of the activities:
its session may fail to close too. -/
theorem foreign_row_after_prune :
    (let calls := [.openBatch ⟨0⟩, .edit 0 (.save lettered), .commit 0]
      let s := fresh.after calls
      let t := (s.perform (prune epoch ⟨0⟩)).2
      let pairId := "EUR2USD\x00\x00\x00\x00AAAA"
      (∀ call ∈ calls, call.IsOrdinary) ∧ s.locked = false ∧
      (s.perform (Cursor.all .committed).toList).1 = .ok [lettered] ∧ lettered.pairId ≠ pairId ∧
      (t.perform (newest .committed pairId)).1 = .error (.foreignIdentity pairId "EUR2USD")) ∧
    let plan : FaultPlan := fun _ call =>
      if call = .read ∨ call = .closeSession then some ⟨"lost", false⟩ else none
    let out := ({ fresh with plan } : Store).perform (prune epoch ⟨0⟩)
    ⟨.read, some ⟨"lost", false⟩⟩ ∈ out.2.trace ∧ out.1 = .error (.engine "lost") := by
  refine ⟨?_, by decide, rfl⟩
  intro calls s t pairId
  have hordinary : lettered.IsOrdinary := ⟨by decide, by decide, by decide, by decide⟩
  have hcalls : ∀ call ∈ calls, call.IsOrdinary := by
    intro call hcall
    simp only [calls, List.mem_cons, List.not_mem_nil, or_false] at hcall
    rcases hcall with rfl | rfl | rfl
    · trivial
    · exact hordinary
    · trivial
  have h : s.Mirrors ⟨History.empty.saved lettered, none, 1⟩ := mirrors_after hcalls
  have hlettered : (History.empty.saved lettered).Lists [lettered] := by
    refine ⟨fun x => ?_, List.pairwise_singleton _ _⟩
    rw [List.mem_singleton, History.has_saved]
    exact ⟨.inl, fun hx => hx.resolve_right fun hnone => nomatch hnone.1⟩
  obtain ⟨shown, hscan, hshown⟩ := h.scan (Ledger.history?_committed _)
  have hknown : epoch.offset.isSome = true := rfl
  have hwait : waitTooLong ⟨0⟩ = false := rfl
  obtain ⟨list, hlists, u, hrun, hpruned⟩ := h.prune h.locked hknown hwait
  have ht : t = u := congrArg Prod.snd hrun
  obtain rfl := hlists.unique hlettered
  refine ⟨hcalls, h.locked, hshown.unique hlettered ▸ hscan, by decide, ?_⟩
  have hhas : ((History.empty.saved lettered).cleared
      ([lettered].filter (·.isOlder epoch))).Has lettered := by
    rw [History.has_cleared]
    exact ⟨History.has_saved.2 (.inl rfl), by decide⟩
  rw [ht, hpruned.newest]
  exact (hpruned.committed.readNewest_of_entry hhas (by decide)).2

end Store

end RateLedger
