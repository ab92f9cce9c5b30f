import RateLedger.Proofs.OwnBatches
import RateLedger.Proofs.Survivors

/-!
# Runs with prunings

A store is also pruned. Up to a cutoff that knows its distance from UTC a pruning leaves what is not
older, and up to one that does not it removes nothing; while a batch is open it is refused. So every
operation does to the tables what it does to the histories (`Mirrors.operate`), and after any
operations the store mirrors the ledger of the operations (`mirrors_afterAll`). How many times a
history was pruned shows nowhere but in the observations that are left.
-/

namespace RateLedger

/-- What is done to a store: a call on it or on one of its batches, or a pruning. -/
inductive Operation
  | call (made : Call)
  | prune (cutoff : Time.DateTime) (wait : Binary64)

namespace Operation

/-- The step of an operation. -/
def step : Operation → StoreM Unit
  | .call made => made.step
  | .prune cutoff wait => do let _ ← Store.prune cutoff wait

/-- An operation is ordinary if what it edits is. -/
def IsOrdinary : Operation → Prop
  | .call made => made.IsOrdinary
  | .prune _ _ => True

end Operation

/-- The store after some operations, each of which may be refused or fail. -/
def Store.afterAll (s : Store) (operations : List Operation) : Store :=
  operations.foldl (fun s operation => (s.perform operation.step).2) s

/-! ## What prunings leave -/

namespace History

/-- The history without what is older than a cutoff. -/
def since (h : History) (cutoff : Time.DateTime) : History where
  find? pairId seconds := (h.find? pairId seconds).filter fun x => !x.isOlder cutoff
  placed hx := h.placed (Option.filter_eq_some_iff.1 hx).1

section

variable {h : History} {cutoff : Time.DateTime} {list : List Observation} {x : Observation}

theorem has_since : (h.since cutoff).Has x ↔ h.Has x ∧ x.isOlder cutoff = false := by
  unfold Has since
  rw [Option.filter_eq_some_iff, Bool.not_eq_true']

theorem Lists.since (hlists : h.Lists list) (cutoff : Time.DateTime) :
    (h.since cutoff).Lists (list.filter fun x => !x.isOlder cutoff) where
  mem x := by rw [List.mem_filter, hlists.mem, has_since, Bool.not_eq_true']
  ordered := hlists.ordered.filter _

theorem Lists.cleared_eq_since (hlists : h.Lists list) (cutoff : Time.DateTime) :
    h.cleared (list.filter (·.isOlder cutoff)) = h.since cutoff := by
  refine ext_has fun x => ?_
  rw [← (hlists.cleared _).mem, (hlists.since cutoff).mem]

end

end History

namespace Ledger

/-- The ledger after a pruning that was not refused. -/
def pruned (l : Ledger) (cutoff : Time.DateTime) : Ledger where
  committed := if cutoff.offset.isSome then l.committed.since cutoff else l.committed
  pending := none
  opened := l.opened + 1

/-- The ledger after an operation. -/
def operate (l : Ledger) : Operation → Ledger
  | .call made => l.call made
  | .prune cutoff wait =>
    if Store.waitTooLong wait || l.pending.isSome then l else l.pruned cutoff

/-- The ledger after some operations. -/
def afterAll (l : Ledger) (operations : List Operation) : Ledger := operations.foldl operate l

end Ledger

namespace Store

section

variable {s : Store} {l : Ledger} {b : Nat}

/-- A batch whose work has come to its end is committed, or dropped if the work failed. -/
theorem Mirrors.finish (h : s.Mirrors l) {changes : List Edit}
    (hchanges : l.editsOf? b = some changes) (result : Except StoreFault α) :
    (s.perform (finish b result)).2.Mirrors
      { l with
        committed := if result.isOk then l.committed.edits changes else l.committed
        pending := none } := by
  have hopen := (h.shows hchanges).isOpen
  cases result with
  | error fault =>
    have hdiscarded := h.discard b
    rw [Ledger.call, hchanges] at hdiscarded
    have hrun : (s.perform (Store.finish b (.error fault : Except StoreFault α))).2 =
        (s.perform (leave b)).2 := rfl
    rw [hrun, perform_leave, if_pos hopen]
    exact hdiscarded
  | ok a =>
    have hcommitted := h.commit b
    have hok := h.commit_ok hchanges
    have hended := isOpen_of_commit hopen
    rw [Ledger.call, hchanges] at hcommitted
    have hrun : s.perform (Store.finish b (.ok a)) =
        s.perform (ensuring (Store.commit b >>= fun _ => pure a) (leave b)) := rfl
    rw [hrun, perform_ensuring, perform_bind_of_ok hok, perform_pure, perform_leave, hended]
    exact hcommitted

/-- Work in a batch of its own that came to the end with some edits. -/
theorem Mirrors.ownBatch (h : s.Mirrors l) (hfree : s.locked = false) {wait : Binary64}
    (hwait : waitTooLong wait = false) {work : Nat → StoreM α} {result : Except StoreFault α}
    {t : Store} {changes : List Edit}
    (hwork : (s.called .openSession).withOpened.perform (work l.opened) = (result, t))
    (ht : t.Mirrors (l.withOpened.withEdits l.opened changes)) :
    (s.perform (Store.ownBatch wait work)).2.Mirrors
      ⟨if result.isOk then l.committed.edits changes else l.committed, none, l.opened + 1⟩ := by
  rw [perform_ownBatch, perform_openBatch, hwait, hfree, h.reliable.strike?, h.opened]
  show (Prod.snd (Store.perform _ _)).Mirrors _
  rw [hwork]
  exact ht.finish (l.withOpened.editsOf?_withEdits l.opened changes) result

/-- A cutoff that does not know its distance from UTC stops a pruning at the first observation, and
where there is none, nothing is older. -/
theorem Mirrors.prune_unknown (h : s.Mirrors l) (hfree : s.locked = false)
    {cutoff : Time.DateTime} (hcutoff : cutoff.offset.isSome = false) {wait : Binary64}
    (hwait : waitTooLong wait = false) :
    (s.perform (Store.prune cutoff wait)).2.Mirrors (l.pruned cutoff) := by
  have hopened : (s.called .openSession).withOpened.Mirrors l.withOpened :=
    (h.withTrace _).withOpened (h.pending_of_free hfree)
  obtain ⟨events, hsweep⟩ := ((hopened.shows l.editsOf?_withOpened).works_sweep_unknown
    hcutoff).perform hopened.reliable
  have hswept : Mirrors _ (l.withOpened.withEdits l.opened []) :=
    hopened.withTrace (events ++ (s.called .openSession).withOpened.trace)
  have hbatch : (s.perform (Store.ownBatch wait fun b => sweep b cutoff)).2.Mirrors _ :=
    h.ownBatch hfree hwait hsweep hswept
  have hpruned : l.pruned cutoff = ⟨l.committed, none, l.opened + 1⟩ := by
    unfold Ledger.pruned
    rw [hcutoff]
    rfl
  rw [show l.committed.edits [] = l.committed from rfl, ite_self, ← hpruned] at hbatch
  rw [prune_eq_ownBatch, perform_bind]
  generalize s.perform (Store.ownBatch wait fun b => sweep b cutoff) = out at hbatch ⊢
  rcases out with ⟨fault | stale, t⟩
  · exact hbatch
  · exact hbatch.withNote _ _ _

/-- A pruning is refused, and then changes nothing, if its time to wait cannot be counted or another
batch is open. -/
theorem perform_prune_of_refused (cutoff : Time.DateTime) {wait : Binary64}
    (h : (waitTooLong wait || s.locked) = true) :
    s.perform (prune cutoff wait) =
      (.error (if waitTooLong wait then .waitTooLong else .batchOpen), s) := by
  rw [prune_eq_ownBatch, perform_bind]
  cases hwait : waitTooLong wait with
  | true => rw [perform_ownBatch_of_wait hwait, if_pos rfl]
  | false =>
    have hlocked : s.locked = true := by simpa [hwait] using h
    rw [perform_ownBatch_of_locked hlocked hwait]
    rfl

/-- A pruning does to the tables what it does to the histories. -/
theorem Mirrors.operate_prune (h : s.Mirrors l) (cutoff : Time.DateTime) (wait : Binary64) :
    (s.perform (Store.prune cutoff wait)).2.Mirrors (l.operate (.prune cutoff wait)) := by
  unfold Ledger.operate
  dsimp only
  rw [← h.locked]
  by_cases hrefused : (waitTooLong wait || s.locked) = true
  · rw [if_pos hrefused, perform_prune_of_refused cutoff hrefused]
    exact h
  · rw [if_neg hrefused]
    obtain ⟨hwait, hfree⟩ : waitTooLong wait = false ∧ s.locked = false := by
      simpa using hrefused
    cases hcutoff : cutoff.offset.isSome with
    | false => exact h.prune_unknown hfree hcutoff hwait
    | true =>
      obtain ⟨list, hlists, t, hrun, ht⟩ := h.prune hfree hcutoff hwait
      have hpruned : l.pruned cutoff =
          ⟨l.committed.cleared (list.filter (·.isOlder cutoff)), none, l.opened + 1⟩ := by
        unfold Ledger.pruned
        rw [if_pos hcutoff, hlists.cleared_eq_since]
      rw [hrun, hpruned]
      exact ht

/-- An ordinary operation does to the tables what it does to the histories. -/
theorem Mirrors.operate (h : s.Mirrors l) {operation : Operation}
    (hoperation : operation.IsOrdinary) :
    (s.perform operation.step).2.Mirrors (l.operate operation) := by
  cases operation with
  | call made => exact h.call hoperation
  | prune cutoff wait =>
    have hstep : (s.perform (Operation.prune cutoff wait).step).2 =
        (s.perform (Store.prune cutoff wait)).2 := by
      unfold Operation.step
      rw [perform_bind]
      rcases s.perform (Store.prune cutoff wait) with ⟨_ | _, t⟩
      · rfl
      · rfl
    rw [hstep]
    exact h.operate_prune cutoff wait

theorem Mirrors.afterAll (h : s.Mirrors l) {operations : List Operation}
    (hoperations : ∀ operation ∈ operations, operation.IsOrdinary) :
    (s.afterAll operations).Mirrors (l.afterAll operations) := by
  induction operations generalizing s l with
  | nil => exact h
  | cons operation rest ih =>
    apply ih (h.operate (hoperations operation List.mem_cons_self))
    intro other hother
    exact hoperations other (List.mem_cons_of_mem _ hother)

/-- After any ordinary operations the store mirrors the ledger of the operations. -/
theorem mirrors_afterAll {operations : List Operation}
    (hoperations : ∀ operation ∈ operations, operation.IsOrdinary) :
    (fresh.afterAll operations).Mirrors (Ledger.fresh.afterAll operations) :=
  mirrors_fresh.afterAll hoperations

end

end Store

/-- The ledger of a run without prunings is that of the calls. -/
theorem Ledger.afterAll_calls (l : Ledger) (calls : List Call) :
    l.afterAll (calls.map .call) = l.after calls :=
  List.foldl_map

namespace Store

theorem isOrdinary_calls {calls : List Call} (hcalls : ∀ call ∈ calls, call.IsOrdinary) :
    ∀ operation ∈ calls.map Operation.call, operation.IsOrdinary := by
  intro operation hmem
  obtain ⟨made, hmade, rfl⟩ := List.mem_map.1 hmem
  exact hcalls made hmade

/-- The run `outOfOrder`, and a pruning of what is older than two and a half seconds. -/
def prunedOutOfOrder : List Operation :=
  outOfOrder.map .call ++ [.prune halfPastTwo ⟨0⟩]

theorem isOrdinary_prunedOutOfOrder :
    ∀ operation ∈ prunedOutOfOrder, operation.IsOrdinary := by
  intro operation hmem
  rcases List.mem_append.1 hmem with hcall | hprune
  · exact isOrdinary_calls isOrdinary_outOfOrder operation hcall
  · rw [List.mem_singleton.1 hprune]
    trivial

theorem lists_prunedOutOfOrder :
    (Ledger.fresh.afterAll prunedOutOfOrder).committed.Lists [longer] := by
  have hafter : Ledger.fresh.afterAll prunedOutOfOrder =
      (Ledger.fresh.after outOfOrder).operate (.prune halfPastTwo ⟨0⟩) := by
    rw [← Ledger.afterAll_calls]
    exact List.foldl_append
  have hwait : waitTooLong ⟨0⟩ = false := by decide
  have hpending : (Ledger.fresh.after outOfOrder).pending = none := rfl
  have hpruned := lists_outOfOrder.since halfPastTwo
  rw [hafter, Ledger.operate, hwait, hpending]
  exact hpruned

end Store

end RateLedger
