import RateLedger.Proofs.Batches
import RateLedger.Proofs.Holdings

/-!
# A store is a ledger

A ledger is the whole meaning of a store whose engine works: the committed history, and the edits so
far of the batch that is open. The history that a batch shows is the committed one with these edits,
as long as it is open, since nothing else can be committed meanwhile. Every ordinary call on a store
does to the tables what the call on the ledger does to the histories (`Mirrors.call`), so after any
run the store mirrors the ledger of the run (`mirrors_after`), and scans of the committed table and
of the open batch list the two histories of the ledger.
-/

namespace RateLedger

/-- What a store is meant to be. -/
structure Ledger where
  committed : History
  /-- The batch that is open, by its number, and its edits so far. -/
  pending : Option (Nat × List Edit)
  /-- How many batches were ever opened. -/
  opened : Nat

namespace Ledger

/-- The ledger without observations or batches. -/
def fresh : Ledger := ⟨.empty, none, 0⟩

/-- The edits so far of a batch, if it is the one that is open. -/
def editsOf? (l : Ledger) (b : Nat) : Option (List Edit) :=
  match l.pending with
  | some (c, changes) => if c = b then some changes else none
  | none => none

/-- The ledger in which a new batch is open. -/
def withOpened (l : Ledger) : Ledger :=
  { l with pending := some (l.opened, []), opened := l.opened + 1 }

/-- The ledger in which the open batch has these edits. -/
def withEdits (l : Ledger) (b : Nat) (changes : List Edit) : Ledger :=
  { l with pending := some (b, changes) }

/-- The ledger after a call. A call that a store refuses changes nothing. -/
def call (l : Ledger) : Call → Ledger
  | .openBatch wait =>
    if Store.waitTooLong wait || l.pending.isSome then l
    else l.withOpened
  | .edit b change =>
    match l.editsOf? b with
    | some changes => l.withEdits b (changes ++ [change])
    | none => l
  | .commit b =>
    match l.editsOf? b with
    | some changes => { l with committed := l.committed.edits changes, pending := none }
    | none => l
  | .discard b =>
    match l.editsOf? b with
    | some _ => { l with pending := none }
    | none => l

/-- The ledger after some calls. -/
def after (l : Ledger) (calls : List Call) : Ledger := calls.foldl call l

/-- What is to be seen in a view, if it can be read. -/
def history? (l : Ledger) : View → Option History
  | .committed => some l.committed
  | .batch b => (l.editsOf? b).map l.committed.edits

theorem editsOf?_eq_some_iff {l : Ledger} {b : Nat} {changes : List Edit} :
    l.editsOf? b = some changes ↔ l.pending = some (b, changes) := by
  unfold editsOf?
  cases l.pending with
  | none => simp
  | some out =>
    obtain ⟨c, other⟩ := out
    by_cases h : c = b
    · simp [h]
    · simp [h]

@[simp] theorem pending_withOpened (l : Ledger) :
    l.withOpened.pending = some (l.opened, []) := rfl

@[simp] theorem pending_withEdits (l : Ledger) (b : Nat) (changes : List Edit) :
    (l.withEdits b changes).pending = some (b, changes) := rfl

theorem history?_committed (l : Ledger) : l.history? .committed = some l.committed := rfl

theorem editsOf?_withOpened (l : Ledger) : l.withOpened.editsOf? l.opened = some [] :=
  editsOf?_eq_some_iff.2 rfl

theorem editsOf?_withEdits (l : Ledger) (b : Nat) (changes : List Edit) :
    (l.withEdits b changes).editsOf? b = some changes :=
  editsOf?_eq_some_iff.2 rfl

end Ledger

namespace Store

/-- A store with a reliable engine mirrors a ledger: its tables hold the histories of the ledger,
and the batch that is open in the one is open in the other. -/
structure Mirrors (s : Store) (l : Ledger) : Prop where
  reliable : s.IsReliable
  committed : s.committed.Holds l.committed
  locked : s.locked = l.pending.isSome
  opened : s.batches.length = l.opened
  isOpen : ∀ b, s.isOpen b = (l.editsOf? b).isSome
  views : ∀ b changes, l.editsOf? b = some changes →
    (s.viewOf b).Holds (l.committed.edits changes)

section

variable {s : Store} {l : Ledger} {b : Nat}

theorem mirrors_fresh : fresh.Mirrors .fresh where
  reliable _ _ := rfl
  committed := Table.holds_empty
  locked := rfl
  opened := rfl
  isOpen _ := rfl
  views _ _ h := nomatch h

theorem Mirrors.withTrace (h : s.Mirrors l) (trace : List EngineEvent) :
    (s.withTrace trace).Mirrors l :=
  ⟨h.reliable, h.committed, h.locked, h.opened, h.isOpen, h.views⟩

theorem Mirrors.withNote (h : s.Mirrors l) (level : Level) (speaker text : String) :
    (s.withNote level speaker text).Mirrors l :=
  ⟨h.reliable, h.committed, h.locked, h.opened, h.isOpen, h.views⟩

theorem Mirrors.pending_of_free (h : s.Mirrors l) (hfree : s.locked = false) :
    l.pending = none := by
  rw [← Option.isNone_iff_eq_none, ← Option.not_isSome, ← h.locked, hfree]
  rfl

theorem Mirrors.withOpened (h : s.Mirrors l) (hpending : l.pending = none) :
    s.withOpened.Mirrors l.withOpened := by
  refine ⟨h.reliable, h.committed, rfl, ?_, fun c => ?_, fun c changes hchanges => ?_⟩
  · show (s.batches ++ _).length = l.opened + 1
    rw [← h.opened]
    exact List.length_append
  · -- No other batch is open, so the new one is the only one.
    have hclosed : s.isOpen c = false := by
      rw [h.isOpen, Ledger.editsOf?, hpending]
      rfl
    rw [isOpen_withOpened, hclosed, h.opened, Ledger.editsOf?]
    by_cases hc : l.opened = c
    · simp [hc]
    · simp [hc, Ne.symm hc]
  · obtain ⟨rfl, rfl⟩ : l.opened = c ∧ [] = changes := by
      simpa using Ledger.editsOf?_eq_some_iff.1 hchanges
    rw [← h.opened, viewOf_withOpened]
    exact h.committed

theorem Mirrors.openBatch (h : s.Mirrors l) (wait : Binary64) :
    (s.perform (openBatch wait)).2.Mirrors (l.call (.openBatch wait)) := by
  rw [perform_openBatch]
  unfold Ledger.call
  dsimp only
  by_cases hwait : waitTooLong wait = true
  · rw [if_pos hwait, if_pos (by simp [hwait])]
    exact h
  · rw [if_neg hwait, h.locked]
    by_cases hpending : l.pending.isSome = true
    · rw [if_pos hpending, if_pos (by simp [hpending])]
      exact h
    · rw [if_neg hpending, if_neg (by simp [hwait, hpending]), h.reliable.strike?]
      exact (h.withTrace _).withOpened (by simpa using hpending)

theorem Mirrors.isClosed (h : s.Mirrors l) (hnone : l.editsOf? b = none) : s.isOpen b = false := by
  rw [h.isOpen, hnone]
  rfl

/-- A batch is open if the ledger has edits of it. -/
theorem Mirrors.shows (h : s.Mirrors l) {changes : List Edit}
    (hchanges : l.editsOf? b = some changes) : s.Shows b (s.viewOf b) where
  isOpen := by rw [h.isOpen, hchanges]; rfl
  view := rfl
  sound := (h.views b changes hchanges).isSound
  committed := h.committed.isSound

theorem Mirrors.withView (h : s.Mirrors l) {changes after : List Edit} {view : Table}
    (hchanges : l.editsOf? b = some changes) (hview : view.Holds (l.committed.edits after)) :
    (s.withView b view).Mirrors (l.withEdits b after) := by
  have hopen := (h.shows hchanges).isOpen
  have hpending := Ledger.editsOf?_eq_some_iff.1 hchanges
  refine ⟨h.reliable, h.committed, ?_, ?_, fun c => ?_, fun c other hother => ?_⟩
  · rw [show (s.withView b view).locked = s.locked from rfl, h.locked, hpending]
    rfl
  · exact (List.length_modify _ _ _).trans h.opened
  · rw [isOpen_withView, h.isOpen]
    unfold Ledger.editsOf?
    rw [hpending, Ledger.pending_withEdits]
    by_cases hc : b = c
    · simp [hc]
    · simp [hc]
  · obtain ⟨rfl, rfl⟩ : b = c ∧ after = other := by
      simpa using Ledger.editsOf?_eq_some_iff.1 hother
    rw [viewOf_withView hopen]
    exact hview

theorem Mirrors.edit (h : s.Mirrors l) (b : Nat) {change : Edit} (hchange : change.IsOrdinary) :
    (s.perform (change.step b)).2.Mirrors (l.call (.edit b change)) := by
  unfold Ledger.call
  dsimp only
  cases hchanges : l.editsOf? b with
  | none =>
    have hclosed := h.isClosed hchanges
    have hrefused : s.Reads (.batch b) (change.step b) (.error .batchClosed) := by
      cases change with
      | save x => exact (Works.checkOpen_closed hclosed).bind_error
      | delete pairId seconds => exact (Works.checkOpen_closed hclosed).bind_error
    obtain ⟨events, hperform⟩ := hrefused.perform h.reliable
    rw [hperform]
    exact h.withTrace _
  | some changes =>
    have hview := h.views b changes hchanges
    have hshows := h.shows hchanges
    obtain ⟨view, hedits, hholds⟩ : ∃ view, s.Edits b (change.step b) view ∧
        view.Holds (l.committed.edits (changes ++ [change])) := by
      rw [History.edits_append_singleton]
      cases change with
      | save x => exact ⟨_, hshows.edits_save hchange.readable, hview.saved hchange⟩
      | delete pairId seconds =>
        obtain ⟨hplain, hsecond⟩ := hchange
        exact ⟨_, hshows.edits_delete pairId hsecond.isModerate.fits,
          hview.deleted hplain hsecond.isModerate⟩
    obtain ⟨events, hperform⟩ := hedits.perform h.reliable
    rw [hperform]
    exact (h.withView hchanges hholds).withTrace _

/-- A batch that ends leaves none open. -/
theorem Mirrors.withEnded (h : s.Mirrors l) {changes : List Edit} {t : Store} {kept : History}
    (hchanges : l.editsOf? b = some changes) (hplan : t.plan = s.plan)
    (hbatches : t.batches = s.batches) (hkept : t.committed.Holds kept) :
    (t.withEnded b).Mirrors { l with committed := kept, pending := none } := by
  have hpending := Ledger.editsOf?_eq_some_iff.1 hchanges
  refine ⟨fun n call => hplan ▸ h.reliable n call, hkept, rfl, ?_, fun c => ?_, nofun⟩
  · rw [← h.opened, ← hbatches]
    exact List.length_modify _ _ _
  · have hsame : t.isOpen c = s.isOpen c := by
      unfold Store.isOpen
      rw [hbatches]
    rw [isOpen_withEnded, hsame, h.isOpen]
    unfold Ledger.editsOf?
    rw [hpending]
    by_cases hc : b = c
    · simp [hc]
    · simp [hc]

theorem Mirrors.commit (h : s.Mirrors l) (b : Nat) :
    (s.perform (commit b)).2.Mirrors (l.call (.commit b)) := by
  unfold Ledger.call
  dsimp only
  cases hchanges : l.editsOf? b with
  | none =>
    rw [perform_commit_closed (h.isClosed hchanges)]
    exact h
  | some changes =>
    rw [perform_commit (h.shows hchanges).isOpen, h.reliable.strike?]
    dsimp only
    rw [perform_close]
    exact h.withEnded hchanges rfl rfl (h.views b changes hchanges)

/-- With a reliable engine the commit of an open batch ends well. -/
theorem Mirrors.commit_ok (h : s.Mirrors l) {changes : List Edit}
    (hchanges : l.editsOf? b = some changes) : (s.perform (Store.commit b)).1 = .ok ⟨⟩ := by
  have hlocked : s.locked = true := by
    rw [h.locked, Ledger.editsOf?_eq_some_iff.1 hchanges]
    rfl
  obtain ⟨trace, hperform⟩ := h.reliable.perform_commit (h.shows hchanges).isOpen hlocked
  rw [hperform]

theorem Mirrors.discard (h : s.Mirrors l) (b : Nat) :
    (s.perform (discard b)).2.Mirrors (l.call (.discard b)) := by
  unfold Ledger.call
  dsimp only
  cases hchanges : l.editsOf? b with
  | none =>
    rw [perform_discard_closed (h.isClosed hchanges)]
    exact h
  | some changes =>
    rw [perform_discard (h.shows hchanges).isOpen]
    dsimp only
    rw [perform_close]
    exact h.withEnded hchanges rfl rfl h.committed

/-- An ordinary call does to the tables what it does to the histories. -/
theorem Mirrors.call (h : s.Mirrors l) {call : Call} (hcall : call.IsOrdinary) :
    (s.perform call.step).2.Mirrors (l.call call) := by
  cases call with
  | openBatch wait =>
    have hstep : (s.perform (Call.openBatch wait).step).2 =
        (s.perform (Store.openBatch wait)).2 := by
      unfold Call.step
      rw [perform_bind]
      rcases s.perform (Store.openBatch wait) with ⟨_ | _, t⟩
      · rfl
      · rfl
    rw [hstep]
    exact h.openBatch wait
  | edit b change => exact h.edit b hcall
  | commit b => exact h.commit b
  | discard b => exact h.discard b

theorem Mirrors.after (h : s.Mirrors l) {calls : List Call}
    (hcalls : ∀ call ∈ calls, call.IsOrdinary) : (s.after calls).Mirrors (l.after calls) := by
  induction calls generalizing s l with
  | nil => exact h
  | cons call rest ih =>
    rw [after_cons]
    apply ih (h.call (hcalls call List.mem_cons_self))
    intro other hother
    exact hcalls other (List.mem_cons_of_mem _ hother)

theorem mirrors_after {calls : List Call} (hcalls : ∀ call ∈ calls, call.IsOrdinary) :
    (fresh.after calls).Mirrors (Ledger.fresh.after calls) :=
  mirrors_fresh.after hcalls

/-! ## What scans list -/

/-- What the ledger has to be seen in a view is held by the table of the view. -/
theorem Mirrors.table (h : s.Mirrors l) {view : View} {history : History}
    (hview : l.history? view = some history) :
    s.CanRead view ∧ (s.table view).Holds history := by
  cases view with
  | committed =>
    obtain rfl : l.committed = history := Option.some.inj hview
    exact ⟨trivial, h.committed⟩
  | batch b =>
    obtain ⟨changes, hchanges, rfl⟩ := Option.map_eq_some_iff.1 hview
    exact ⟨(h.shows hchanges).isOpen, h.views b changes hchanges⟩

theorem Mirrors.exists_history (h : s.Mirrors l) {view : View} (hview : s.CanRead view) :
    ∃ history, l.history? view = some history := by
  cases view with
  | committed => exact ⟨_, rfl⟩
  | batch b =>
    have hsome : (l.editsOf? b).isSome = true := by rw [← h.isOpen]; exact hview
    obtain ⟨changes, hchanges⟩ := Option.isSome_iff_exists.1 hsome
    exact ⟨_, congrArg (·.map l.committed.edits) hchanges⟩

/-- A full scan of a sound table shows its rows in the order of their keys. -/
theorem reads_all_of_isSound {view : View} (hview : s.CanRead view)
    (hsound : (s.table view).IsSound) :
    s.Reads view (Cursor.all view).toList (.ok ((s.table view).rows.filterMap shown?)) := by
  have hread := Cursor.reads_toList hview Key.root
  rw [hsound.range_root, Cursor.readRows_of_isSound hsound] at hread
  exact hread

/-- A full scan of a table that holds a history lists the history. -/
theorem reads_all {view : View} {history : History} (hview : s.CanRead view)
    (hholds : (s.table view).Holds history) :
    ∃ list, s.Reads view (Cursor.all view).toList (.ok list) ∧ history.Lists list :=
  ⟨_, reads_all_of_isSound hview hholds.isSound, hholds.lists⟩

theorem Mirrors.scan (h : s.Mirrors l) {view : View} {history : History}
    (hview : l.history? view = some history) :
    ∃ list, (s.perform (Cursor.all view).toList).1 = .ok list ∧ history.Lists list := by
  obtain ⟨hread, hholds⟩ := h.table hview
  obtain ⟨list, hscan, hlists⟩ := reads_all hread hholds
  obtain ⟨events, hperform⟩ := hscan.perform h.reliable
  exact ⟨list, by rw [hperform], hlists⟩

/-- After any ordinary calls a full scan lists the ledger of the calls: that of the committed table
lists the committed history, and that of an open batch the same with the edits of the batch. -/
theorem scan_lists_ledger (calls : List Call) (hcalls : ∀ call ∈ calls, call.IsOrdinary) :
    let s := fresh.after calls
    let l := Ledger.fresh.after calls
    (∃ list, (s.perform (Cursor.all .committed).toList).1 = .ok list ∧ l.committed.Lists list) ∧
    (∀ b changes, l.pending = some (b, changes) →
      ∃ list, (s.perform (Cursor.all (.batch b)).toList).1 = .ok list ∧
        (l.committed.edits changes).Lists list) ∧
    ∀ b, s.isOpen b = true ↔ ∃ changes, l.pending = some (b, changes) := by
  intro s l
  have h : s.Mirrors l := mirrors_after hcalls
  refine ⟨h.scan l.history?_committed, fun b changes hpending => h.scan ?_, fun b => ?_⟩
  · exact congrArg (·.map l.committed.edits) (Ledger.editsOf?_eq_some_iff.2 hpending)
  · rw [h.isOpen, Option.isSome_iff_exists]
    exact exists_congr fun changes => Ledger.editsOf?_eq_some_iff

/-- Late saves in two pairs, the identifier of one of which starts with that of the other. -/
def outOfOrder : List Call :=
  [.openBatch ⟨0⟩, .edit 0 (.save late), .edit 0 (.save longer), .edit 0 (.save early),
    .edit 0 (.delete "EUR2USD" 5), .commit 0]

theorem isOrdinary_outOfOrder : ∀ call ∈ outOfOrder, call.IsOrdinary := by
  have hearly : early.IsOrdinary := ⟨by decide, by decide, by decide, by decide⟩
  have hlate : late.IsOrdinary := ⟨by decide, by decide, by decide, by decide⟩
  have hlonger : longer.IsOrdinary := ⟨by decide, by decide, by decide, by decide⟩
  intro call hcall
  simp only [outOfOrder, List.mem_cons, List.not_mem_nil, or_false] at hcall
  rcases hcall with rfl | rfl | rfl | rfl | rfl | rfl
  · trivial
  · exact hlate
  · exact hlonger
  · exact hearly
  · exact ⟨by decide, .inl (by decide)⟩
  · trivial

theorem lists_outOfOrder : (Ledger.fresh.after outOfOrder).committed.Lists [early, longer] := by
  refine ⟨fun x => ?_, List.pairwise_pair.2 (.inl (by decide))⟩
  show _ ↔ ((((History.empty.saved late).saved longer).saved early).deleted "EUR2USD" 5).Has x
  rw [History.has_deleted, History.has_saved, History.has_saved, History.has_saved]
  constructor
  · intro hx
    rcases List.mem_pair.1 hx with rfl | rfl
    · exact ⟨.inl rfl, by decide⟩
    · exact ⟨.inr ⟨.inl rfl, by decide⟩, by decide⟩
  · rintro ⟨rfl | ⟨rfl | ⟨rfl | ⟨hnone, -⟩, -⟩, -⟩, hplace⟩
    · simp
    · simp
    · exact absurd ⟨rfl, rfl⟩ hplace
    · cases hnone

theorem scan_lists_outOfOrder :
    (∀ call ∈ outOfOrder, call.IsOrdinary) ∧
    ((fresh.after outOfOrder).perform (Cursor.all .committed).toList).1 = .ok [early, longer] := by
  obtain ⟨⟨list, hscan, hlists⟩, -⟩ := scan_lists_ledger outOfOrder isOrdinary_outOfOrder
  exact ⟨isOrdinary_outOfOrder, hlists.unique lists_outOfOrder ▸ hscan⟩

end

end Store

end RateLedger
