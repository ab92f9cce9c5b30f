import RateLedger.Proofs.Rankings
import RateLedger.Proofs.Requests

/-!
# Prunings on demand

A pruning on demand is asked for with a window of minutes, for which the service only wants that it
is not below zero. The cutoff is the time on the clock less the window, so it exists as long as that
time lies in the years that a clock can show. Then exactly the observations before the cutoff go,
and a larger window never takes more. A window that reaches back before the first year leaves
nothing to do either, as no observation is that old, but the pruning fails there
(`prune_on_demand`).
-/

namespace RateLedger.Service

section

variable {world : World} {l : Ledger} {list : List Observation}

/-- The larger the window, the fewer observations are older. -/
theorem isStale_of_le {now : Time.DateTime} {minutes more : Int} (hle : minutes ≤ more)
    {x : Observation} (h : isStale now more x = true) : isStale now minutes x = true := by
  have hwindow : minutes * microsPerMinute ≤ more * microsPerMinute :=
    Int.mul_le_mul_of_nonneg_right hle (Int.le_of_lt microsPerMinute_pos)
  unfold isStale at *
  rw [decide_eq_true_eq] at *
  omega

theorem length_stale_le {now : Time.DateTime} {minutes more : Int} (hle : minutes ≤ more)
    (list : List Observation) :
    (list.filter (isStale now more)).length ≤ (list.filter (isStale now minutes)).length := by
  rw [← List.countP_eq_length_filter, ← List.countP_eq_length_filter]
  exact List.countP_mono_left fun x _ => isStale_of_le hle

/-- Nothing is older than a time before the epoch. -/
theorem isStale_eq_false {now : Time.DateTime} (hclock : now.offset = some 0) {minutes : Int}
    (h : now.wall - minutes * microsPerMinute < Time.minWall) (x : Observation) :
    isStale now minutes x = false := by
  have hyear : Time.minWall < 0 := by decide
  have hmicros : 0 < Time.microsPerSecond := by decide
  have hsecond : 0 ≤ (x.seconds : Int) * Time.microsPerSecond :=
    Int.mul_nonneg (Int.natCast_nonneg _) (Int.le_of_lt hmicros)
  unfold isStale
  rw [Time.DateTime.instant_of_utc hclock, decide_eq_false_iff_not]
  omega

/-- What a pruning on demand comes to with a reliable engine: it fails before the first year, it is
refused like every batch, or it deletes what is older and nothing else. -/
theorem prune_of_mirrors (h : world.store.Mirrors l) (hlists : l.committed.Lists list)
    (hclock : world.clock.offset = some 0) (service : Service) {minutes : Int}
    (hminutes : 0 ≤ minutes) :
    let stale := list.filter (isStale world.clock minutes)
    let out := world.perform (service.prune minutes)
    if world.clock.wall - minutes * microsPerMinute < Time.minWall then
      out = (.error .outOfRange, world)
    else if Store.waitTooLong service.wait || world.store.locked then
      out = (.error (.store (if Store.waitTooLong service.wait then .waitTooLong else .batchOpen)),
        world)
    else
      out.1 = .ok stale.length ∧
        out.2.store.Mirrors ⟨l.committed.cleared stale, none, l.opened + 1⟩ := by
  intro stale out
  rcases perform_prune world service minutes with
    ⟨hbelow, -⟩ | ⟨⟨-, hearly⟩, hfailed⟩ | ⟨-, cutoff, hcutoff, text, hrun⟩
  · omega
  · rw [if_pos hearly]
    exact hfailed
  · have hdated : ¬world.clock.wall - minutes * microsPerMinute < Time.minWall := by
      rw [← minus?_eq_none_iff hminutes, hcutoff]
      exact Option.some_ne_none cutoff
    have hout : out = _ := hrun
    rw [World.perform_bind, World.perform_onStore] at hout
    rw [if_neg hdated]
    by_cases hrefused : (Store.waitTooLong service.wait || world.store.locked) = true
    · rw [if_pos hrefused, hout, Store.perform_prune_of_refused cutoff hrefused]
      rfl
    · rw [if_neg hrefused]
      obtain ⟨hwait, hfree⟩ : Store.waitTooLong service.wait = false ∧
          world.store.locked = false := by simpa using hrefused
      have hknown : cutoff.offset.isSome = true := by
        rw [(Time.DateTime.ofWall?_eq_some_iff.1 hcutoff).2, hclock]
        rfl
      obtain ⟨shown, hshown, t, hpruned, ht⟩ := h.prune hfree hknown hwait
      obtain rfl := hshown.unique hlists
      have hstale : shown.filter (·.isOlder cutoff) = stale :=
        congrArg (shown.filter ·) (isOlder_eq_isStale hcutoff)
      rw [hstale] at hpruned ht
      rw [hpruned] at hout
      rw [hout]
      exact ⟨rfl, ht.withNote _ _ _⟩

theorem eq_length_of_prune_ok (h : world.store.Mirrors l) (hlists : l.committed.Lists list)
    (hclock : world.clock.offset = some 0) (service : Service) {minutes : Int}
    (hminutes : 0 ≤ minutes) {count : Nat}
    (hok : (world.perform (service.prune minutes)).1 = .ok count) :
    count = (list.filter (isStale world.clock minutes)).length := by
  have hcases := prune_of_mirrors h hlists hclock service hminutes
  dsimp only at hcases
  split at hcases
  · rw [hcases] at hok
    cases hok
  · split at hcases
    · rw [hcases] at hok
      cases hok
    · exact Except.ok.inj (hok.symm.trans hcases.1)

end

variable {operations : List Operation} {world : World}

/-- After any ordinary operations, a pruning on demand with a window that is not below zero: where
the window reaches back before the first year it fails and changes nothing, although nothing stored
is that old. Otherwise, unless it is refused because a batch is open or the time to wait cannot be
counted, it tells how many stored observations are older than the time on the clock less the window,
and a scan shows the others and no more; where none is older, the rows stay as they are. Of two
windows that are answered the larger one is told no greater number. -/
theorem prune_on_demand (service : Service)
    (hoperations : ∀ operation ∈ operations, operation.IsOrdinary)
    (hstore : world.store = Store.fresh.afterAll operations)
    (hclock : world.clock.offset = some 0) (minutes : Int) (hminutes : 0 ≤ minutes) :
    let history := (Ledger.fresh.afterAll operations).committed
    let stale := isStale world.clock minutes
    let out := world.perform (service.prune minutes)
    ∃ list, (world.store.perform (Cursor.all .committed).toList).1 = .ok list ∧
      history.Lists list ∧
      (if world.clock.wall - minutes * microsPerMinute < Time.minWall then
        out = (.error .outOfRange, world) ∧ ∀ x ∈ list, stale x = false
      else if Store.waitTooLong service.wait || world.store.locked then
        out = (.error (.store (if Store.waitTooLong service.wait then .waitTooLong
          else .batchOpen)), world)
      else
        out.1 = .ok (list.filter stale).length ∧
        (out.2.store.perform (Cursor.all .committed).toList).1 =
          .ok (list.filter fun x => !stale x) ∧
        ((∀ x ∈ list, stale x = false) →
          out.1 = .ok 0 ∧ out.2.store.committed = world.store.committed)) ∧
      ∀ more, minutes ≤ more → ∀ count fewer, out.1 = .ok count →
        (world.perform (service.prune more)).1 = .ok fewer → fewer ≤ count := by
  intro history stale out
  have h : world.store.Mirrors (Ledger.fresh.afterAll operations) :=
    hstore ▸ Store.mirrors_afterAll hoperations
  obtain ⟨list, hscan, hlists⟩ := h.scan (Ledger.history?_committed _)
  have hcases := prune_of_mirrors h hlists hclock service hminutes
  refine ⟨list, hscan, hlists, ?_, fun more hle count fewer hcount hfewer => ?_⟩
  · by_cases hearly : world.clock.wall - minutes * microsPerMinute < Time.minWall
    · rw [if_pos hearly] at hcases ⊢
      exact ⟨hcases, fun x _ => isStale_eq_false hclock hearly x⟩
    rw [if_neg hearly] at hcases ⊢
    by_cases hrefused : (Store.waitTooLong service.wait || world.store.locked) = true
    · rw [if_pos hrefused] at hcases ⊢
      exact hcases
    rw [if_neg hrefused] at hcases ⊢
    obtain ⟨hok, hafter⟩ := hcases
    refine ⟨hok, ?_, fun hnew => ?_⟩
    · obtain ⟨left, hleft, hlisted⟩ := hafter.scan (Ledger.history?_committed _)
      rw [hleft, hlisted.unique (hlists.cleared stale)]
    · have hnothing : list.filter (isStale world.clock minutes) = [] := by
        rw [List.filter_eq_nil_iff]
        intro x hx hold
        exact Bool.false_ne_true ((hnew x hx).symm.trans hold)
      rw [hnothing] at hok hafter
      exact ⟨hok, hafter.committed.unique h.committed⟩
  · rw [eq_length_of_prune_ok h hlists hclock service hminutes hcount,
      eq_length_of_prune_ok h hlists hclock service (Int.le_trans hminutes hle) hfewer]
    exact length_stale_le hle list

/-- A minute and three seconds after the epoch, a window of a minute takes the observation of the
second second, and one of a trillion minutes fails. -/
theorem prune_outOfOrder_on_demand :
    let operations := Store.outOfOrder.map Operation.call
    let service : Service := ⟨[], ⟨0⟩⟩
    let world := resting ⟨63000000, some 0, by decide, by decide⟩ (Store.fresh.afterAll operations)
    ((∀ operation ∈ operations, operation.IsOrdinary) ∧
      world.store = Store.fresh.afterAll operations ∧ world.clock.offset = some 0) ∧
    (world.perform (service.prune 1)).1 = .ok 1 ∧
    (world.perform (service.prune 1000000000000)).1 = .error .outOfRange := by
  intro operations service world
  have hoperations : ∀ operation ∈ operations, operation.IsOrdinary :=
    Store.isOrdinary_calls Store.isOrdinary_outOfOrder
  have hstore : world.store = Store.fresh.afterAll operations := store_resting _ _
  have hclock : world.clock.offset = some 0 := rfl
  refine ⟨⟨hoperations, hstore, hclock⟩, ?_, ?_⟩
  · obtain ⟨list, -, hlists, hpruned, -⟩ :=
      prune_on_demand service hoperations hstore hclock 1 (by decide)
    rw [Ledger.afterAll_calls] at hlists
    obtain rfl := hlists.unique Store.lists_outOfOrder
    have hearly : ¬world.clock.wall - 1 * microsPerMinute < Time.minWall := by decide
    have hlocked := (Store.mirrors_afterAll hoperations).locked
    rw [Ledger.afterAll_calls] at hlocked
    have hfree : world.store.locked = false := by
      rw [hstore, hlocked]
      rfl
    rw [if_neg hearly, if_neg (by rw [hfree]; decide)] at hpruned
    exact hpruned.1
  · obtain ⟨list, -, -, hpruned, -⟩ :=
      prune_on_demand service hoperations hstore hclock 1000000000000 (by decide)
    have hearly : world.clock.wall - 1000000000000 * microsPerMinute < Time.minWall := by decide
    rw [if_pos hearly] at hpruned
    rw [hpruned.1]

end RateLedger.Service
