import RateLedger.Poller
import RateLedger.Proofs.Actions
import RateLedger.Proofs.OwnBatches

/-!
# What ends polling

The pairs of a round are kept apart, so whatever the source answers with, whatever the rows are and
whatever calls of the engine fail, a round comes to its count (`succeeds_round`). The pruning after
it is given up for any failure of the store as such. But the session of its batch is opened and
closed outside of the activities of the store, and where one of these two calls fails, the failure
is none of the store as such: it leaves the tick, and no round comes after it
(`sessions_end_polling`).
-/

namespace RateLedger

namespace Store

/-- The failure of the last call of the engine, if that opened or closed a session. -/
def sessionFailure? (s : Store) : Option Outage :=
  match s.trace with
  | ⟨.openSession, outage⟩ :: _ => outage
  | ⟨.closeSession, outage⟩ :: _ => outage
  | _ => none

section

variable {s u t : Store}

theorem Ended.sessionFailure? {closing : Option Outage} (h : u.Ended t closing) :
    t.sessionFailure? = closing := by
  obtain ⟨earlier, htrace⟩ := h.trace
  unfold Store.sessionFailure?
  rw [htrace]

/-- How a step came to its end on a session: with the failure to open or to close it, which was
planned, or with no fault but one of the store as such. -/
def EndsWithSession (plan : FaultPlan) (out : Except StoreFault α × Store) : Prop :=
  match out.2.sessionFailure? with
  | some outage => out.1 = .error (.engine outage.cause) ∧
      ∃ n call, (call = .openSession ∨ call = .closeSession) ∧ plan n call = some outage
  | none => ∀ fault, out.1 = .error fault → fault.isBackend = true

theorem Ended.endsWithSession {closing : Option Outage} (h : u.Ended t closing)
    {answer : Except StoreFault α}
    (hanswer : ∀ fault, answer = .error fault → fault.isBackend = true) :
    EndsWithSession u.plan (closedWith closing answer, t) := by
  unfold EndsWithSession
  dsimp only
  rw [h.sessionFailure?]
  cases closing with
  | none => exact hanswer
  | some outage =>
    obtain ⟨n, hn⟩ := h.planned
    exact ⟨rfl, n, .closeSession, .inr rfl, hn⟩

theorem ownBatch_endsWithSession (hfree : s.locked = false) {wait : Binary64}
    (hwait : waitTooLong wait = false) (work : Nat → StoreM α)
    (hwork : ∀ t : Store, Keeps t.SameOutside (·.isBackend = true) (work s.batches.length)) :
    EndsWithSession s.plan (s.perform (ownBatch wait work)) := by
  rcases cases_withBatch hfree hwait hwork with
    ⟨outage, hstrike, hout⟩ | ⟨-, result, u, hworked, hfinishes⟩
  · have hfailure : (s.called .openSession).sessionFailure? = some outage := hstrike
    rw [hout]
    unfold EndsWithSession
    dsimp only
    rw [hfailure]
    exact ⟨rfl, _, .openSession, .inl rfl, hstrike⟩
  · have hplan : u.plan = s.plan := hworked.outside.plan
    rw [← hplan]
    generalize s.perform (ownBatch wait work) = out at hfinishes ⊢
    obtain ⟨given, t⟩ := out
    cases hfinishes with
    | kept a closing worked ended => exact ended.endsWithSession nofun
    | dropped fault closing cause ended =>
      refine ended.endsWithSession fun other hother => ?_
      cases hother
      exact cause.elim (hworked.fault fault) id

/-- A pruning fails with the failure of its session, or with a fault of the store as such. -/
theorem prune_endsWithSession (hfree : s.locked = false) {wait : Binary64}
    (hwait : waitTooLong wait = false) {cutoff : Time.DateTime}
    (hcutoff : cutoff.offset.isSome = true) :
    EndsWithSession s.plan (s.perform (prune cutoff wait)) := by
  have hsweep : ∀ t : Store,
      Keeps t.SameOutside (·.isBackend = true) (sweep s.batches.length cutoff) := by
    refine fun t => (unmoved_outside t fun _ => id).sweep s.batches.length fun hnone => ?_
    exact absurd (hnone.symm.trans hcutoff) Bool.false_ne_true
  have hbatch := ownBatch_endsWithSession hfree hwait (fun b => sweep b cutoff) hsweep
  rw [prune_eq_ownBatch, perform_bind]
  generalize s.perform (ownBatch wait fun b => sweep b cutoff) = out at hbatch ⊢
  rcases out with ⟨fault | stale, t⟩
  · unfold EndsWithSession at hbatch ⊢
    dsimp only at hbatch ⊢
    cases hfailure : t.sessionFailure? with
    | none =>
      rw [hfailure] at hbatch
      exact fun other hother => hbatch other (by cases hother; rfl)
    | some outage =>
      rw [hfailure] at hbatch
      exact ⟨by rw [Except.error.inj hbatch.1], hbatch.2⟩
  · -- Only the journal is written in after the batch.
    have hsame : ∀ level speaker text,
        (t.withNote level speaker text).sessionFailure? = t.sessionFailure? := fun _ _ _ => rfl
    unfold EndsWithSession at hbatch ⊢
    show match (t.withNote _ _ _).sessionFailure? with | some _ => _ | none => _
    rw [hsame]
    dsimp only at hbatch
    cases hfailure : t.sessionFailure? with
    | none => exact nofun
    | some outage =>
      rw [hfailure] at hbatch
      exact absurd hbatch.1 nofun

end

end Store

namespace Poller

variable {poller : Poller} {pair : Pair}

theorem succeeds_keepApart (fetched : Fetched) : (poller.keepApart fetched).Succeeds := by
  refine .bind (.attempt _) fun kept => ?_
  cases kept with
  | ok saved => exact .pure saved
  | error failure => exact .bind (.note _ _ _) fun _ => .pure false

/-- A round comes to its count, whatever fails. -/
theorem succeeds_round (poller : Poller) (arrange : List Fetched → List Fetched) :
    (poller.round arrange).Succeeds := by
  have hfetch : poller.fetchAll.Succeeds := .mapM fun pair _ => .bind (.attempt _) fun _ => .pure _
  have hkeep : ∀ order, (poller.keepAll order).Succeeds := fun order =>
    .bind (.mapM fun fetched _ => succeeds_keepApart fetched) fun _ => .pure _
  exact .bind hfetch fun found => .bind (hkeep _) fun saved =>
    .bind (.note _ _ _) fun _ => .pure saved

/-- What a round does not touch: the clock and the plan of the engine, and the lock is free before
and after it. -/
structure Rests (clock : Time.DateTime) (plan : FaultPlan) (world : World) : Prop where
  clock : world.clock = clock
  plan : world.store.plan = plan
  free : world.store.locked = false

section

variable {clock : Time.DateTime} {plan : FaultPlan}

theorem rests_note (level : Level) (speaker : String) (text : Text.Wide) :
    (Action.note level speaker text).Keeps (Rests clock plan) :=
  fun _ h => ⟨h.clock, h.plan, h.free⟩

theorem rests_fetch (pair : Pair) (attempts failed : Nat) :
    (fetch pair attempts failed).Keeps (Rests clock plan) := by
  induction attempts generalizing failed with
  | zero => exact .pure none
  | succ attempts ih =>
    have hask : (Action.ask pair).Keeps (Rests clock plan) :=
      fun _ h => ⟨h.clock, h.plan, h.free⟩
    refine .bind hask.attempt fun answer => ?_
    cases answer with
    | ok y => exact .pure (some y)
    | error failure =>
      cases failure with
      | vendor error => exact .bind (rests_note _ _ _) fun _ => ih (failed + 1)
      | _ => exact .throw _

theorem rests_keep (poller : Poller) (pair : Pair) (y : Sighting) :
    (poller.keep pair y).Keeps (Rests clock plan) := by
  have hkeep : (Action.onStore (Store.keep y poller.wait)).Keeps (Rests clock plan) := by
    refine .onStore fun world h => ?_
    obtain ⟨hfree, hplan⟩ := Store.free_keep h.free y poller.wait
    exact ⟨h.clock, hplan.trans h.plan, hfree⟩
  refine .bind hkeep.attempt fun result => ?_
  cases result with
  | ok done => exact .pure true
  | error failure =>
    dsimp only
    split
    · exact .bind (rests_note _ _ _) fun _ => .pure false
    · exact .throw failure

theorem rests_keepApart (poller : Poller) (fetched : Fetched) :
    (poller.keepApart fetched).Keeps (Rests clock plan) := by
  have hfound : ∀ found, (poller.keepFound fetched.pair found).Keeps (Rests clock plan) := by
    intro found
    cases found with
    | none => exact .pure false
    | some y => exact rests_keep poller fetched.pair y
  have hresult : Action.Keeps (Rests clock plan)
      (ExceptT.mk (pure fetched.result) : Action (Option Sighting)) := fun _ h => h
  refine .bind (Action.Keeps.bind hresult hfound).attempt fun kept => ?_
  cases kept with
  | ok saved => exact .pure saved
  | error failure => exact .bind (rests_note _ _ _) fun _ => .pure false

theorem rests_round (poller : Poller) (arrange : List Fetched → List Fetched) :
    (poller.round arrange).Keeps (Rests clock plan) := by
  have hfetch : poller.fetchAll.Keeps (Rests clock plan) := by
    refine .mapM fun pair _ => .bind ?_ fun _ => .pure _
    exact (Action.Keeps.bind (rests_note _ _ _) fun _ => rests_fetch pair _ 0).attempt
  have hkeep : ∀ order, (poller.keepAll order).Keeps (Rests clock plan) := fun order =>
    .bind (.mapM fun fetched _ => rests_keepApart poller fetched) fun _ => .pure _
  exact .bind hfetch fun found => .bind (hkeep _) fun saved =>
    .bind (rests_note _ _ _) fun _ => .pure saved

end

/-! ## Ticks -/

/-- A poller that can go on: no batch is open, its clock shows UTC and did when it pruned last, and
its two settings of time make sense. -/
structure CanGoOn (poller : Poller) (world : World) : Prop where
  free : world.store.locked = false
  wait : Store.waitTooLong poller.wait = false
  retention : 0 ≤ poller.retention
  clock : world.clock.offset = some 0
  last : poller.lastPruned.offset = some 0

/-- Whether more time than the retention went by since the last pruning. -/
def IsDue (poller : Poller) (now : Time.DateTime) : Prop :=
  poller.retention < now.wall - poller.lastPruned.wall

instance (poller : Poller) (now : Time.DateTime) : Decidable (poller.IsDue now) :=
  inferInstanceAs (Decidable (_ < _))

theorem CanGoOn.isDue {world : World} (h : poller.CanGoOn world) :
    poller.isDue world.clock = .ok (decide (poller.IsDue world.clock)) := by
  have hcomparable : world.clock.comparable poller.lastPruned = true := by
    unfold Time.DateTime.comparable
    rw [h.clock, h.last]
    rfl
  unfold Poller.isDue Time.DateTime.since?
  rw [if_pos hcomparable, Time.DateTime.instant_of_utc h.clock,
    Time.DateTime.instant_of_utc h.last]
  rfl

/-- A pruning that is due has a cutoff: it is later than the last pruning. -/
theorem CanGoOn.cutoff {world : World} (h : poller.CanGoOn world)
    (hdue : poller.IsDue world.clock) :
    ∃ cutoff, world.clock.minus? poller.retention = some cutoff ∧ cutoff.offset = some 0 := by
  unfold Time.DateTime.minus?
  rw [h.clock]
  cases hcutoff : Time.DateTime.ofWall? (world.clock.wall - poller.retention) (some 0) with
  | some cutoff => exact ⟨cutoff, rfl, (Time.DateTime.ofWall?_eq_some_iff.1 hcutoff).2⟩
  | none =>
    have hrange := Time.DateTime.ofWall?_eq_none_iff.1 hcutoff
    have hlower := poller.lastPruned.lower
    have hupper := world.clock.upper
    have hretention := h.retention
    unfold IsDue at hdue
    omega

/-- How a pruning went on, which came to `result` and left a world. -/
def Goes (plan : FaultPlan) (result : Except Failure α) (after : World) : Prop :=
  match after.store.sessionFailure? with
  | some outage => result = .error (.store (.engine outage.cause)) ∧
      ∃ n call, (call = .openSession ∨ call = .closeSession) ∧ plan n call = some outage
  | none => ∃ a, result = .ok a

/-- The pruning of a poller up to a cutoff. -/
def pruneTo (poller : Poller) (cutoff : Time.DateTime) : Action (Option Nat) := do
  match ← Action.attempt (Action.onStore (Store.prune cutoff poller.wait)) with
  | .ok count =>
    Action.note .info speaker ("Compaction cleaned " ++ Number.Decimal.ofNat count ++ " items")
    return some count
  | .error failure =>
    if failure.isBackend then
      Action.note .error speaker "Compaction failed"
      return none
    else throw failure

theorem prune_eq (poller : Poller) (now : Time.DateTime) :
    poller.prune now = Action.orOutOfRange (now.minus? poller.retention) >>= poller.pruneTo :=
  rfl

theorem rests_pruneTo (poller : Poller) (cutoff clock : Time.DateTime) (plan : FaultPlan) :
    (poller.pruneTo cutoff).Keeps (Rests clock plan) := by
  have hprune : (Action.onStore (Store.prune cutoff poller.wait)).Keeps (Rests clock plan) := by
    refine .onStore fun world h => ?_
    obtain ⟨hfree, hplan⟩ := Store.free_prune h.free cutoff poller.wait
    exact ⟨h.clock, hplan.trans h.plan, hfree⟩
  refine .bind hprune.attempt fun result => ?_
  cases result with
  | ok count => exact .bind (rests_note _ _ _) fun _ => .pure (some count)
  | error failure =>
    dsimp only
    split
    · exact .bind (rests_note _ _ _) fun _ => .pure none
    · exact .throw failure

/-- A poller passes on what its pruning gives, unless that is a fault of the store as such. -/
theorem perform_pruneTo (poller : Poller) (cutoff : Time.DateTime) (world : World) :
    let out := world.store.perform (Store.prune cutoff poller.wait)
    ∃ journal, world.perform (poller.pruneTo cutoff) =
      (match out.1 with
        | .ok count => .ok (some count)
        | .error fault => if fault.isBackend then .ok none else .error (.store fault),
        { world with store := { out.2 with journal } }) := by
  intro out
  have hrun : world.perform (poller.pruneTo cutoff) = World.perform { world with store := out.2 }
      (match out.1.mapError Failure.store with
        | .ok count => do
          Action.note .info speaker
            ("Compaction cleaned " ++ Number.Decimal.ofNat count ++ " items")
          return some count
        | .error failure =>
          if failure.isBackend then do
            Action.note .error speaker "Compaction failed"
            return none
          else throw failure) := rfl
  rw [hrun]
  generalize out = pruned
  rcases pruned with ⟨fault | count, store⟩
  · show ∃ journal, World.perform _ (if fault.isBackend then _ else _) =
      (if fault.isBackend then .ok none else .error (.store fault), _)
    cases fault.isBackend with
    | true => exact ⟨_, rfl⟩
    | false => exact ⟨_, rfl⟩
  · exact ⟨_, rfl⟩

/-- A pruning goes on unless its session fails. -/
theorem goes_pruneTo {world : World} (hfree : world.store.locked = false)
    (hwait : Store.waitTooLong poller.wait = false) {cutoff : Time.DateTime}
    (hcutoff : cutoff.offset.isSome = true) :
    Goes world.store.plan (world.perform (poller.pruneTo cutoff)).1
      (world.perform (poller.pruneTo cutoff)).2 := by
  have hends := Store.prune_endsWithSession hfree hwait hcutoff
  obtain ⟨journal, hrun⟩ := poller.perform_pruneTo cutoff world
  rw [hrun]
  generalize world.store.perform (Store.prune cutoff poller.wait) = out at hends ⊢
  obtain ⟨result, store⟩ := out
  have hjournal : ({ store with journal } : Store).sessionFailure? = store.sessionFailure? := rfl
  unfold Store.EndsWithSession at hends
  unfold Goes
  dsimp only at hends ⊢
  rw [hjournal]
  cases hfailure : store.sessionFailure? with
  | some outage =>
    rw [hfailure] at hends
    obtain ⟨rfl, hplanned⟩ := hends
    exact ⟨rfl, hplanned⟩
  | none =>
    rw [hfailure] at hends
    cases result with
    | ok count => exact ⟨some count, rfl⟩
    | error fault =>
      have hbackend : fault.isBackend = true := hends fault rfl
      exact ⟨none, if_pos hbackend⟩

theorem run_pruneIfDue (poller : Poller) (world : World) :
    poller.pruneIfDue.run world =
      match poller.isDue world.clock with
      | .error failure => ((.error failure, poller), world)
      | .ok false => ((.ok none, poller), world)
      | .ok true => (((world.perform (poller.prune world.clock)).1,
          { poller with lastPruned := world.clock }),
          (world.perform (poller.prune world.clock)).2) := by
  show StateT.run (match poller.isDue world.clock with
    | .error failure => pure (.error failure, poller)
    | .ok false => pure (.ok none, poller)
    | .ok true => return (← (poller.prune world.clock).run,
        { poller with lastPruned := world.clock })) world = _
  rcases poller.isDue world.clock with failure | due
  · rfl
  · cases due <;> rfl

theorem run_tick (poller : Poller) (world : World) :
    poller.tick.run world =
      match world.perform (poller.round id) with
      | (.error failure, after) => ((.error failure, poller), after)
      | (.ok saved, after) =>
        let pruned := poller.pruneIfDue.run after
        ((pruned.1.1.map fun _ => saved, pruned.1.2), pruned.2) := by
  unfold tick
  rw [World.run_bind]
  rcases world.perform (poller.round id) with ⟨failure | saved, after⟩
  · rfl
  · rfl

/-- A tick comes to the count of its round, unless its pruning is due and the session of that fails.
Then it fails itself, with that failure. -/
theorem CanGoOn.tick {world : World} (h : poller.CanGoOn world) :
    let out := poller.tick.run world
    out.1.2.CanGoOn out.2 ∧ Rests world.clock world.store.plan out.2 ∧
    ∃ saved, (world.perform (poller.round id)).1 = .ok saved ∧
      (¬poller.IsDue world.clock → out.1.1 = .ok saved) ∧
      (poller.IsDue world.clock →
        match out.2.store.sessionFailure? with
        | some outage => out.1.1 = .error (.store (.engine outage.cause)) ∧
            ∃ n call, (call = .openSession ∨ call = .closeSession) ∧
              world.store.plan n call = some outage
        | none => out.1.1 = .ok saved) := by
  intro out
  obtain ⟨saved, hround⟩ := succeeds_round poller id world
  have hrests : Rests world.clock world.store.plan (world.perform (poller.round id)).2 :=
    rests_round poller id world ⟨rfl, rfl, h.free⟩
  have hout : out = _ := poller.run_tick world
  generalize world.perform (poller.round id) = counted at hround hrests hout
  obtain ⟨result, mid⟩ := counted
  obtain rfl : result = .ok saved := hround
  have hmid : poller.CanGoOn mid :=
    ⟨hrests.free, h.wait, h.retention, hrests.clock ▸ h.clock, h.last⟩
  dsimp only at hout
  rw [run_pruneIfDue, hmid.isDue, hrests.clock] at hout
  by_cases hdue : poller.IsDue world.clock
  · have hdue' : poller.IsDue mid.clock := hrests.clock ▸ hdue
    obtain ⟨cutoff, hcutoff, hutc⟩ := hmid.cutoff hdue'
    have hprune : poller.prune world.clock = poller.pruneTo cutoff := by
      rw [prune_eq, ← hrests.clock, hcutoff]
      rfl
    have haware : cutoff.offset.isSome = true := by rw [hutc]; rfl
    have hgoes := goes_pruneTo hmid.free h.wait haware
    have hpruned := rests_pruneTo poller cutoff world.clock world.store.plan mid hrests
    rw [decide_eq_true hdue, hprune] at hout
    rw [hrests.plan] at hgoes
    dsimp only at hout
    generalize mid.perform (poller.pruneTo cutoff) = pruned at hgoes hpruned hout
    rw [hout]
    refine ⟨⟨hpruned.free, h.wait, h.retention, hpruned.clock ▸ h.clock, h.clock⟩, hpruned, saved,
      rfl, fun hnot => absurd hdue hnot, fun _ => ?_⟩
    unfold Goes at hgoes
    dsimp only
    cases hfailure : pruned.2.store.sessionFailure? with
    | some outage =>
      rw [hfailure] at hgoes
      exact ⟨by rw [hgoes.1]; rfl, hgoes.2⟩
    | none =>
      rw [hfailure] at hgoes
      obtain ⟨a, ha⟩ := hgoes
      show pruned.1.map (fun _ => saved) = .ok saved
      rw [ha]
      rfl
  · rw [decide_eq_false hdue] at hout
    dsimp only at hout
    rw [hout]
    exact ⟨hmid, hrests, saved, rfl, fun _ => rfl, fun h => absurd h hdue⟩

theorem run_rounds_tick (count : Nat) (poller : Poller) (world : World) :
    (rounds (count + 1) poller).run world =
      (match (poller.tick.run world).1 with
      | (.error failure, poller) => pure ⟨[], some failure, poller⟩
      | (.ok _, poller) => do
        let wait := (← get).clock.untilNextMinute
        if count = 0 then return ⟨[wait], none, poller⟩
        else
          match ← (Action.pass (wait * Time.microsPerSecond)).run with
          | .error failure => return ⟨[wait], some failure, poller⟩
          | .ok () =>
            let rest ← rounds count poller
            return { rest with waits := wait :: rest.waits } : StateM World Rounds).run
        (poller.tick.run world).2 := by
  rw [rounds]
  rfl

theorem run_rounds_succ (count : Nat) (poller : Poller) (world : World) :
    (rounds (count + 1) poller).run world =
      match poller.tick.run world with
      | ((.error failure, poller), after) => (⟨[], some failure, poller⟩, after)
      | ((.ok _, poller), after) =>
        let wait := after.clock.untilNextMinute
        if count = 0 then (⟨[wait], none, poller⟩, after)
        else
          match after.perform (Action.pass (wait * Time.microsPerSecond)) with
          | (.error failure, later) => (⟨[wait], some failure, poller⟩, later)
          | (.ok (), later) =>
            let rest := (rounds count poller).run later
            ({ rest.1 with waits := wait :: rest.1.waits }, rest.2) := by
  rw [run_rounds_tick]
  rcases poller.tick.run world with ⟨⟨failure | saved, left⟩, after⟩
  · rfl
  · show StateT.run (if count = 0 then _ else _) after = if count = 0 then _ else _
    by_cases hlast : count = 0
    · rw [if_pos hlast, if_pos hlast]
      rfl
    · rw [if_neg hlast, if_neg hlast, World.run_bind]
      rcases after.perform (Action.pass (after.clock.untilNextMinute * Time.microsPerSecond)) with
        ⟨failure | done, later⟩
      · rfl
      · rfl

/-- How rounds came to their end: as many as wanted, or ended by a time that no clock shows, or by
the failure of a session, which was planned and came last. -/
def EndsRounds (count : Nat) (plan : FaultPlan) (result : Rounds) (after : World) : Prop :=
  match result.failure with
  | none => result.waits.length = count
  | some failure => failure = .outOfRange ∨
      ∃ outage, failure = .store (.engine outage.cause) ∧
        after.store.sessionFailure? = some outage ∧
        ∃ n call, (call = .openSession ∨ call = .closeSession) ∧ plan n call = some outage

/-- Letting time pass leaves everything but the clock, which shows UTC as before. -/
theorem perform_pass (world : World) (micros : Int) :
    world.perform (Action.pass micros) = (.error .outOfRange, world) ∨
    ∃ clock, clock.offset = world.clock.offset ∧
      world.perform (Action.pass micros) = (.ok ⟨⟩, { world with clock }) := by
  have hrun : world.perform (Action.pass micros) =
      world.perform (Action.orOutOfRange (world.clock.plus? micros) >>= fun clock =>
        modify fun world => { world with clock }) := rfl
  rw [hrun]
  cases hclock : world.clock.plus? micros with
  | none => exact .inl rfl
  | some clock => exact .inr ⟨clock, (Time.DateTime.ofWall?_eq_some_iff.1 hclock).2, rfl⟩

theorem CanGoOn.rounds {world : World} (h : poller.CanGoOn world) (count : Nat) :
    let out := (rounds count poller).run world
    EndsRounds count world.store.plan out.1 out.2 := by
  induction count generalizing poller world with
  | zero => exact rfl
  | succ count ih =>
    intro out
    have hout : out = _ := run_rounds_succ count poller world
    obtain ⟨hcan, hrests, saved, -, hidle, hdue⟩ := h.tick
    generalize poller.tick.run world = ticked at hout hcan hrests hidle hdue
    obtain ⟨⟨result, left⟩, after⟩ := ticked
    have hfailed : ∀ failure, result = .error failure → ∃ outage,
        failure = .store (.engine outage.cause) ∧ after.store.sessionFailure? = some outage ∧
          ∃ n call, (call = .openSession ∨ call = .closeSession) ∧
            world.store.plan n call = some outage := by
      rintro failure rfl
      by_cases hnow : poller.IsDue world.clock
      · have hended := hdue hnow
        dsimp only at hended
        cases hfailure : after.store.sessionFailure? with
        | none =>
          rw [hfailure] at hended
          cases hended
        | some outage =>
          rw [hfailure] at hended
          exact ⟨outage, Except.error.inj hended.1, rfl, hended.2⟩
      · cases hidle hnow
    cases result with
    | error failure =>
      dsimp only at hout
      rw [hout]
      exact .inr (hfailed failure rfl)
    | ok counted =>
      dsimp only at hout
      by_cases hlast : count = 0
      · rw [if_pos hlast] at hout
        rw [hout]
        exact congrArg (· + 1) hlast.symm
      rw [if_neg hlast] at hout
      rcases perform_pass after (after.clock.untilNextMinute * Time.microsPerSecond) with
        hlate | ⟨clock, hoffset, hpass⟩
      · rw [hlate] at hout
        dsimp only at hout
        rw [hout]
        exact .inl rfl
      · rw [hpass] at hout
        dsimp only at hout
        have hnext : left.CanGoOn { after with clock } :=
          ⟨hcan.free, hcan.wait, hcan.retention, hoffset.trans hcan.clock, hcan.last⟩
        have hrest := ih hnext
        have hplan : after.store.plan = world.store.plan := hrests.plan
        dsimp only at hrest
        rw [hplan] at hrest
        rw [hout]
        unfold EndsRounds at hrest ⊢
        dsimp only
        cases hfailure : ((rounds count left).run { after with clock }).1.failure with
        | none =>
          rw [hfailure] at hrest
          exact congrArg (· + 1) hrest
        | some failure =>
          rw [hfailure] at hrest
          exact hrest

/-- All that ends polling is a session of a pruning. A tick comes to the count of its round, unless
its pruning is due and the engine fails to open or to close the session of that: then the tick fails
with that failure, and so do all rounds that it is one of. Where all sessions open and close, rounds
go on for as long as the clock does, whatever else fails in the engine and in the source and
whatever the rows are. -/
theorem sessions_end_polling {world : World} (h : poller.CanGoOn world) :
    (let out := poller.tick.run world
     ∃ saved, (world.perform (poller.round id)).1 = .ok saved ∧
      (¬poller.IsDue world.clock → out.1.1 = .ok saved) ∧
      (poller.IsDue world.clock →
        match out.2.store.sessionFailure? with
        | some outage => out.1.1 = .error (.store (.engine outage.cause)) ∧
            ∃ n call, (call = .openSession ∨ call = .closeSession) ∧
              world.store.plan n call = some outage
        | none => out.1.1 = .ok saved)) ∧
    ∀ count,
      let out := (rounds count poller).run world
      EndsRounds count world.store.plan out.1 out.2 ∧
      ((∀ n, world.store.plan n .openSession = none ∧ world.store.plan n .closeSession = none) →
        out.1.failure = none ∧ out.1.waits.length = count ∨ out.1.failure = some .outOfRange) := by
  refine ⟨h.tick.2.2, fun count => ?_⟩
  intro out
  have hends : EndsRounds count world.store.plan out.1 out.2 := h.rounds count
  refine ⟨hends, fun hpass => ?_⟩
  unfold EndsRounds at hends
  cases hfailure : out.1.failure with
  | none =>
    rw [hfailure] at hends
    exact .inl ⟨rfl, hends⟩
  | some failure =>
    rw [hfailure] at hends
    obtain rfl | ⟨outage, -, -, n, call, hcall, hplanned⟩ := hends
    · exact .inr rfl
    · obtain rfl | rfl := hcall
      · rw [(hpass n).1] at hplanned
        cases hplanned
      · rw [(hpass n).2] at hplanned
        cases hplanned

/-- A poller of one pair that is to prune every hour and did at noon. -/
def hourly : Poller where
  pairs := [⟨"EUR", "USD"⟩]
  retention := 3600 * Time.microsPerSecond
  maxRetries := 3
  wait := ⟨0x3ff0000000000000⟩
  lastPruned := ⟨1717243200 * Time.microsPerSecond, some 0, by decide, by decide⟩
  pairs_ne := by decide

/-- A world a second after one o'clock whose source fails and whose engine opens no session. -/
def sessionless : World where
  store := { Store.fresh with
    plan := fun _ call =>
      if call = .openSession then some ⟨"simulated session failure", false⟩ else none }
  source := fun _ _ _ => .error (.refused "simulated")
  asked := []
  clock := ⟨1717246801 * Time.microsPerSecond, some 0, by decide, by decide⟩

/-- Where no session opens, the pair is given up, but the pruning ends the tick and all rounds. -/
theorem tick_of_no_session :
    let out := hourly.tick.run sessionless
    out.1.1 = .error (.store (.engine "simulated session failure")) := by
  have hcan : hourly.CanGoOn sessionless := ⟨rfl, by decide +kernel, by decide, rfl, rfl⟩
  have hfailure : (hourly.tick.run sessionless).2.store.sessionFailure? =
      some ⟨"simulated session failure", false⟩ := by decide +kernel
  have hnow : hourly.IsDue sessionless.clock := by decide
  obtain ⟨⟨saved, -, -, hdue⟩, -⟩ := sessions_end_polling hcan
  dsimp only at hdue ⊢
  generalize hourly.tick.run sessionless = out at hfailure hdue ⊢
  have hended := hdue hnow
  rw [hfailure] at hended
  exact hended.1

end Poller

end RateLedger
