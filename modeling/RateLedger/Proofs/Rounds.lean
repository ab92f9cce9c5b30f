import RateLedger.Proofs.Tasks
import RateLedger.Proofs.Ticks

/-!
# Rounds of a poller

A round asks for one pair after the other and then saves what was fetched in some order. This is one
way for the tasks of its pairs to take turns (`reaches_round`), so all that holds of any turns holds
of a round.
-/

namespace RateLedger.Poller

variable {poller : Poller} {pair : Pair} {world : World} {front back : List Task}

/-! ## A round as turns of its tasks -/

/-- Some turns lead from one progress to another. -/
def Progress.Reaches (poller : Poller) (progress other : Progress) : Prop :=
  ∃ schedule, progress.after poller schedule = other

theorem Progress.Reaches.refl (progress : Progress) : progress.Reaches poller progress :=
  ⟨[], rfl⟩

theorem Progress.Reaches.trans {progress middle other : Progress}
    (h : progress.Reaches poller middle) (hnext : middle.Reaches poller other) :
    progress.Reaches poller other := by
  obtain ⟨schedule, rfl⟩ := h
  obtain ⟨more, rfl⟩ := hnext
  exact ⟨schedule ++ more, List.foldl_append⟩

/-- A task takes a turn. -/
theorem reaches_turn (poller : Poller) (front back : List Task) (pair : Pair) (stage : Stage)
    (world : World) :
    (⟨front ++ ⟨pair, stage⟩ :: back, world⟩ : Progress).Reaches poller
      ⟨front ++ ⟨pair, (poller.turn pair world stage).1⟩ :: back,
        (poller.turn pair world stage).2⟩ :=
  ⟨[front.length], Progress.turn_middle poller front back ⟨pair, stage⟩ world⟩

theorem perform_fetch_ask (pair : Pair) (left failed : Nat) (world : World) :
    world.perform (fetch pair (left + 1) failed) =
      World.perform { world with asked := pair :: world.asked }
        (match world.source world.clock world.asked pair with
          | .ok y => pure (some y)
          | .error (.vendor error) => do
            Action.note .error speaker ("Query failed on " ++ pair.id ++ ", retries=" ++
              Number.Decimal.ofNat failed ++ ": " ++ error.fault.message)
            fetch pair left (failed + 1)
          | .error failure => throw failure) := by
  rw [fetch]
  rfl

/-- To fetch a pair is to ask once, and to go on after a failure of the vendor. -/
theorem perform_fetch_succ (pair : Pair) (left failed : Nat) (world : World) :
    world.perform (fetch pair (left + 1) failed) =
      match world.perform (fetch pair 1 failed) with
      | (.ok none, after) => after.perform (fetch pair left (failed + 1))
      | (result, after) => (result, after) := by
  rw [perform_fetch_ask, perform_fetch_ask]
  rcases world.source world.clock world.asked pair with failure | y
  · cases failure with
    | vendor error => rfl
    | _ => rfl
  · rfl

theorem reaches_asked (poller : Poller) (front back : List Task) (pair : Pair)
    (left failed : Nat) (world : World) :
    let out := world.perform (fetch pair left failed)
    (⟨front ++ ⟨pair, .asking left failed⟩ :: back, world⟩ : Progress).Reaches poller
      ⟨front ++ ⟨pair, .asked out.1⟩ :: back, out.2⟩ := by
  induction left generalizing failed world with
  | zero => exact reaches_turn poller front back pair (.asking 0 failed) world
  | succ left ih =>
    intro out
    have hout : out = _ := perform_fetch_succ pair left failed world
    have hturn := reaches_turn poller front back pair (.asking (left + 1) failed) world
    dsimp only [turn] at hturn
    unfold asking at hturn
    rw [hout]
    generalize world.perform (fetch pair 1 failed) = first at hturn ⊢
    rcases first with ⟨failure | _ | y, after⟩
    · exact hturn
    · exact hturn.trans (ih (failed + 1) after)
    · exact hturn

theorem reaches_ask (poller : Poller) (front back : List Task) (pair : Pair) (world : World) :
    let out := world.perform (poller.ask pair)
    (⟨front ++ ⟨pair, .waiting⟩ :: back, world⟩ : Progress).Reaches poller
      ⟨front ++ ⟨pair, .asked out.1⟩ :: back, out.2⟩ :=
  (reaches_turn poller front back pair .waiting world).trans
    (reaches_asked poller front back pair _ _ _)

/-- What a round fetched, as a task. -/
def Fetched.task (fetched : Fetched) : Task := ⟨fetched.pair, .asked fetched.result⟩

/-- Asking for all pairs, one after the other. -/
theorem reaches_fetchAll (poller : Poller) (done : List Task) (pairs : List Pair) (world : World) :
    ∃ found after,
      world.perform (pairs.mapM fun pair => return ⟨pair, ← Action.attempt (poller.ask pair)⟩) =
        (.ok found, after) ∧
      (⟨done ++ pairs.map fun pair => ⟨pair, .waiting⟩, world⟩ : Progress).Reaches poller
        ⟨done ++ found.map Fetched.task, after⟩ := by
  induction pairs generalizing done world with
  | nil => exact ⟨[], world, rfl, .refl _⟩
  | cons pair rest ih =>
    have hask := reaches_ask poller done (rest.map fun pair => ⟨pair, .waiting⟩) pair world
    generalize hout : world.perform (poller.ask pair) = out at hask
    obtain ⟨found, after, hrun, hreaches⟩ := ih (done ++ [⟨pair, .asked out.1⟩]) out.2
    refine ⟨⟨pair, out.1⟩ :: found, after, ?_, ?_⟩
    · rw [List.mapM_cons, World.perform_bind, World.perform_bind, World.perform_attempt, hout]
      dsimp only
      rw [World.perform_pure]
      dsimp only
      rw [World.perform_bind, hrun]
      rfl
    · simp only [List.append_assoc, List.singleton_append] at hreaches
      exact hask.trans hreaches

theorem perform_keepApart_keep (poller : Poller) (pair : Pair) (y : Sighting) (world : World) :
    world.perform (poller.keepApart ⟨pair, .ok (some y)⟩) =
      let out := world.store.perform (Store.keep y poller.wait)
      World.perform { world with store := out.2 } (do
        match ← Action.attempt
          (match out.1.mapError Failure.store with
            | .ok () => return true
            | .error failure =>
              if failure.isBackend then do
                Action.note .error speaker
                  ("Saving " ++ pair.id ++ " failed, skipping it this tick")
                return false
              else throw failure) with
        | .ok saved => return saved
        | .error _ =>
          Action.note .error speaker ("Unexpected failure while querying " ++ pair.id)
          return false) := by
  unfold keepApart
  rfl

theorem perform_keepApart_found (poller : Poller) (pair : Pair) (y : Sighting) (world : World) :
    world.perform (poller.keepApart ⟨pair, .ok (some y)⟩) =
      match world.store.perform (Store.keep y poller.wait) with
      | (.ok _, store) => (.ok true, { world with store })
      | (.error fault, store) =>
        (.ok false, givingUp pair fault.isBackend { world with store }) := by
  rw [perform_keepApart_keep]
  generalize world.store.perform (Store.keep y poller.wait) = out
  rcases out with ⟨fault | done, store⟩
  · have hsame : (Failure.store fault).isBackend = fault.isBackend := rfl
    dsimp only [Except.mapError]
    rw [hsame]
    cases fault.isBackend with
    | true => rfl
    | false => rfl
  · rfl

/-- Saving what was fetched for a pair, from the first turn for it to the last. -/
theorem reaches_ended (poller : Poller) (front back : List Task) (fetched : Fetched)
    (world : World) :
    let out := world.perform (poller.keepApart fetched)
    ∃ kept, out.1 = .ok kept.isSome ∧
      (⟨front ++ fetched.task :: back, world⟩ : Progress).Reaches poller
        ⟨front ++ ⟨fetched.pair, .ended kept⟩ :: back, out.2⟩ := by
  obtain ⟨pair, result⟩ := fetched
  have hfirst := reaches_turn poller front back pair (.asked result) world
  rcases result with failure | _ | y
  · exact ⟨none, rfl, hfirst⟩
  · exact ⟨none, rfl, hfirst⟩
  · intro out
    have hout : out = _ := perform_keepApart_found poller pair y world
    have hstored : ∀ done store, world.store.perform (Store.keep y poller.wait) =
        (.ok done, store) → ∃ x : Observation, y = x :=
      fun _ _ hkeep => Store.exists_of_keep (congrArg Prod.fst hkeep)
    rw [Store.keep_eq_ownBatch, Store.perform_ownBatch] at hout hstored
    dsimp only [turn] at hfirst
    unfold opening at hfirst
    generalize world.store.perform (Store.openBatch poller.wait) = opened at hfirst hout hstored
    rcases opened with ⟨fault | b, store⟩
    · rw [hout]
      exact ⟨none, rfl, hfirst⟩
    · have hsecond := reaches_turn poller front back pair (.opened b y) { world with store }
      dsimp only [turn] at hsecond
      unfold saving at hsecond
      dsimp only at hfirst hsecond hout hstored
      generalize store.perform (Store.saveSighting b y) = saved at hsecond hout hstored
      obtain ⟨result, left⟩ := saved
      have hthird := reaches_turn poller front back pair (.saved b y result)
        { world with store := left }
      dsimp only [turn] at hthird
      unfold finishing at hthird
      dsimp only at hthird hsecond hout hstored
      generalize left.perform (Store.finish b result) = finished at hthird hout hstored
      rcases finished with ⟨fault | done, last⟩
      · rw [hout]
        exact ⟨none, rfl, (hfirst.trans hsecond).trans hthird⟩
      · obtain ⟨x, rfl⟩ := hstored done last rfl
        rw [hout]
        exact ⟨some ⟨b, x⟩, rfl, (hfirst.trans hsecond).trans hthird⟩

/-- What a task still has to save, if it only waits for that. -/
def Task.fetched? (task : Task) : Option Fetched :=
  match task.stage with
  | .asked result => some ⟨task.pair, result⟩
  | _ => none

/-- A task has fetched or has ended. -/
def Task.IsReady (task : Task) : Prop :=
  task.fetched?.isSome = true ∨ ∃ kept, task.stage = .ended kept

theorem eq_task_of_fetched? {task : Task} {fetched : Fetched} (h : task.fetched? = some fetched) :
    task = fetched.task := by
  obtain ⟨pair, stage⟩ := task
  cases stage with
  | asked result =>
    cases h
    rfl
  | _ => cases h

/-- Saving all that was fetched, in whatever order. -/
theorem reaches_keepAll (poller : Poller) {order : List Fetched} {tasks : List Task} (world : World)
    (hready : ∀ task ∈ tasks, task.IsReady) (hperm : order.Perm (tasks.filterMap Task.fetched?)) :
    ∃ saved ended after, world.perform (order.mapM poller.keepApart) = (.ok saved, after) ∧
      (⟨tasks, world⟩ : Progress).Reaches poller ⟨ended, after⟩ ∧
      (⟨ended, after⟩ : Progress).IsOver ∧
      (saved.filter id).length + (⟨tasks, world⟩ : Progress).kept.length =
        (⟨ended, after⟩ : Progress).kept.length := by
  induction order generalizing tasks world with
  | nil =>
    refine ⟨[], tasks, world, rfl, .refl _, fun task htask => ?_, Nat.zero_add _⟩
    refine (hready task htask).resolve_left fun hsome => ?_
    have hnone := List.filterMap_eq_nil_iff.1 hperm.nil_eq.symm task htask
    rw [hnone] at hsome
    cases hsome
  | cons fetched rest ih =>
    obtain ⟨task, htask, hfetched⟩ := List.mem_filterMap.1 (hperm.mem_iff.1 List.mem_cons_self)
    obtain rfl := eq_task_of_fetched? hfetched
    obtain ⟨front, back, rfl⟩ := List.append_of_mem htask
    obtain ⟨kept, hkept, hreaches⟩ := reaches_ended poller front back fetched world
    have hrest : rest.Perm
        ((front ++ ⟨fetched.pair, .ended kept⟩ :: back).filterMap Task.fetched?) := by
      rw [List.filterMap_append, List.filterMap_cons, hfetched] at hperm
      rw [List.filterMap_append, List.filterMap_cons]
      exact (hperm.trans List.perm_middle).cons_inv
    have hstill : ∀ task ∈ front ++ ⟨fetched.pair, .ended kept⟩ :: back, task.IsReady := by
      intro task hmem
      rcases List.mem_append.1 hmem with hmem | hmem
      · exact hready task (List.mem_append_left _ hmem)
      · rcases List.mem_cons.1 hmem with rfl | hmem
        · exact .inr ⟨kept, rfl⟩
        · exact hready task (List.mem_append_right _ (List.mem_cons_of_mem _ hmem))
    obtain ⟨saved, ended, after, hrun, hmore, hover, hcount⟩ := ih _ hstill hrest
    refine ⟨kept.isSome :: saved, ended, after, ?_, hreaches.trans hmore, hover, ?_⟩
    · rw [List.mapM_cons, World.perform_bind_of_ok hkept, World.perform_bind, hrun]
      rfl
    · rw [← hcount]
      unfold Progress.kept
      simp only [List.filterMap_append, List.filterMap_cons, List.length_append]
      cases kept with
      | none => simp [Stage.kept?, Fetched.task]
      | some kept =>
        simp [Stage.kept?, Fetched.task]
        omega

/-- A round comes to what some turns of its tasks come to, in whatever order it saves. -/
theorem reaches_round (poller : Poller) (world : World) {arrange : List Fetched → List Fetched}
    (harrange : ∀ found, (arrange found).Perm found) :
    ∃ schedule,
      let progress := (poller.started world).after poller schedule
      progress.IsOver ∧ ∃ journal, world.perform (poller.round arrange) =
        (.ok progress.kept.length,
          { progress.world with store := { progress.world.store with journal } }) := by
  obtain ⟨found, fetched, hfetch, hreaches⟩ := reaches_fetchAll poller [] poller.pairs world
  have hasked : (found.map Fetched.task).filterMap Task.fetched? = found := by
    rw [List.filterMap_map]
    exact List.filterMap_some
  have hready : ∀ task ∈ found.map Fetched.task, task.IsReady := by
    intro task htask
    obtain ⟨one, -, rfl⟩ := List.mem_map.1 htask
    exact .inl rfl
  have hnone : (⟨found.map Fetched.task, fetched⟩ : Progress).kept = [] := by
    refine List.filterMap_eq_nil_iff.2 fun task htask => ?_
    obtain ⟨one, -, rfl⟩ := List.mem_map.1 htask
    rfl
  obtain ⟨saved, ended, after, hkeep, hmore, hover, hcount⟩ :=
    reaches_keepAll poller fetched hready ((harrange found).trans (.of_eq hasked.symm))
  rw [hnone] at hcount
  have hround : ∃ journal, world.perform (poller.round arrange) =
      (.ok (saved.filter id).length, { after with store := { after.store with journal } }) := by
    unfold round fetchAll keepAll
    rw [World.perform_bind, hfetch]
    dsimp only
    rw [World.perform_bind, World.perform_bind, hkeep]
    exact ⟨_, rfl⟩
  have hsaved : (saved.filter id).length = (⟨ended, after⟩ : Progress).kept.length := hcount
  rw [hsaved] at hround
  obtain ⟨schedule, hschedule⟩ := hreaches.trans hmore
  have hprogress : (poller.started world).after poller schedule = ⟨ended, after⟩ := hschedule
  refine ⟨schedule, ?_⟩
  rw [hprogress]
  exact ⟨hover, hround⟩

/-! ## What becomes of a round -/

/-- What the tasks of a poller come to: their sightings are ones that the source gave for their
pairs; what was committed is the former rows with the observations of the tasks that kept theirs,
saved in the order of their batches; one commit passed for each of them; and once all tasks have
ended, nobody has the lock who did not have it before. -/
structure Settles (poller : Poller) (start : World) (progress : Progress) : Prop where
  pairs : progress.tasks.map Task.pair = poller.pairs
  sourced : ∀ task ∈ progress.tasks, IsSourced start task
  rows : ∃ order : List Kept, order.Perm progress.kept ∧ order.Pairwise (·.batch < ·.batch) ∧
    progress.world.store.committed =
      (order.map Kept.observation).foldl Table.withSaved start.store.committed
  commits : commits progress.world.store.trace =
    RateLedger.commits start.store.trace + progress.kept.length
  lock : progress.IsOver → progress.world.store.locked = start.store.locked

theorem settles_after (poller : Poller) {world : World}
    (hclose : ∀ n, world.store.plan n .closeSession = none) (schedule : List Nat) :
    poller.Settles world ((poller.started world).after poller schedule) := by
  obtain ⟨order, h⟩ := accounts_after poller hclose schedule
  refine ⟨pairs_started_after poller world schedule, sourced_after poller hclose schedule,
    ⟨order, h.kept, h.ascending, h.committed⟩, ?_, fun hover => ?_⟩
  · rw [h.commits, h.kept.length_eq]
  · have hnone :
        ((poller.started world).after poller schedule).tasks.countP (·.stage.holds) = 0 := by
      refine List.countP_eq_zero.2 fun task htask => ?_
      obtain ⟨kept, hended⟩ := hover task htask
      rw [hended]
      exact Bool.false_ne_true
    have hlock := congrArg (· == 1) h.lock
    simpa only [hnone, Nat.zero_add, Bool.toNat_beq_one] using hlock.symm

/-- The rows after two ways to take turns that keep the same observations. -/
theorem Settles.rows_eq {first second : Progress} (h : poller.Settles world first)
    (hother : poller.Settles world second)
    (hsame : (first.kept.map Kept.observation).Perm (second.kept.map Kept.observation))
    (hordinary : ∀ x ∈ first.kept.map Kept.observation, x.IsOrdinary)
    (hapart : (first.kept.map Kept.observation).Pairwise Observation.IsApart) :
    first.world.store.committed = second.world.store.committed := by
  obtain ⟨order, hperm, -, hrows⟩ := h.rows
  obtain ⟨order', hperm', -, hrows'⟩ := hother.rows
  have horder := hperm.map Kept.observation
  have hboth : (order.map Kept.observation).Perm (order'.map Kept.observation) :=
    (horder.trans hsame).trans (hperm'.map Kept.observation).symm
  rw [hrows, hrows']
  refine Table.withSaved_perm hboth (fun x hx => hordinary x (horder.mem_iff.1 hx)) ?_ _
  exact hapart.perm horder.symm fun h => Std.Symm.symm _ _ h

/-- A tick is its round and then the pruning; its count, if it gives one, is that of the round. -/
theorem run_tick_eq (poller : Poller) (world : World) :
    ∃ saved, (world.perform (poller.round id)).1 = .ok saved ∧
      let pruned := poller.pruneIfDue.run (world.perform (poller.round id)).2
      poller.tick.run world = ((pruned.1.1.map fun _ => saved, pruned.1.2), pruned.2) := by
  obtain ⟨saved, hsaved⟩ := succeeds_round poller id world
  refine ⟨saved, hsaved, ?_⟩
  rw [run_tick]
  generalize world.perform (poller.round id) = out at hsaved ⊢
  obtain ⟨result, after⟩ := out
  obtain rfl : result = .ok saved := hsaved
  rfl

/-- The pairs of a poller are polled at the same time, by tasks that take turns in any order, while
the source does what it likes for each pair and any calls of the engine but the closing of sessions
fail. At every moment the committed rows are the former ones with the observations of the tasks that
kept theirs, saved in the order in which the tasks had the lock, and so many commits passed. A task
ends by a number of turns of its own, and what it fetched it keeps unless the lock is held at its
turn, its own calls of the engine fail or its own identity row cannot be read: the failures of the
others do not stop it. A round, which saves in an order of its choice, is one way to take turns, and
its count, which is the count of a tick, is the number of tasks that kept their observations. Where
these are ordinary and differ in their pairs or seconds, the rows do not depend on the order. -/
theorem tasks_keep_in_lock_order (poller : Poller) (world : World)
    (hclose : ∀ n, world.store.plan n .closeSession = none) :
    let after := (poller.started world).after poller
    (∀ schedule, poller.Settles world (after schedule)) ∧
    (∀ schedule i (hi : i < poller.pairs.length), poller.attempts + 5 ≤ schedule.count i →
      ∃ kept, (after schedule).tasks[i]? = some ⟨poller.pairs[i], .ended kept⟩) ∧
    (∀ schedule i task x, (after schedule).tasks[i]? = some task → task.stage.IsHopeful x →
      let next := (after schedule).turn poller i
      ∃ later, next.tasks[i]? = some later ∧
        (later.stage.IsHopeful x ∨ poller.Stops (after schedule).world next.world task.stage x)) ∧
    (∀ arrange, (∀ found, (arrange found).Perm found) →
      ∃ schedule, (after schedule).IsOver ∧
        let left := (after schedule).world
        ∃ journal, world.perform (poller.round arrange) =
          (.ok (after schedule).kept.length, { left with store := { left.store with journal } })) ∧
    (∃ saved, (world.perform (poller.round id)).1 = .ok saved ∧
      let pruned := poller.pruneIfDue.run (world.perform (poller.round id)).2
      poller.tick.run world = ((pruned.1.1.map fun _ => saved, pruned.1.2), pruned.2)) ∧
    ∀ first second,
      let kept := (after first).kept.map Kept.observation
      kept.Perm ((after second).kept.map Kept.observation) → (∀ x ∈ kept, x.IsOrdinary) →
      kept.Pairwise Observation.IsApart →
        (after first).world.store.committed = (after second).world.store.committed ∧
          (after first).kept.length = (after second).kept.length := by
  intro after
  have hsettles : ∀ schedule, poller.Settles world (after schedule) :=
    settles_after poller hclose
  refine ⟨hsettles, fun schedule i hi => ended_after poller world hi,
    fun schedule i task x => hopeful_after poller hclose schedule,
    fun arrange harrange => reaches_round poller world harrange, run_tick_eq poller world, ?_⟩
  intro first second kept hsame hordinary hapart
  refine ⟨(hsettles first).rows_eq (hsettles second) hsame hordinary hapart, ?_⟩
  have hlength := hsame.length_eq
  rw [List.length_map, List.length_map] at hlength
  exact hlength

/-! ## Two of three tasks, in both orders -/

/-- A poller of three tasks, two of which are for the same pair. -/
def crowded : Poller where
  pairs := [⟨"EUR", "USD"⟩, ⟨"EUR", "USD"⟩, ⟨"GBP", "USD"⟩]
  retention := 3600 * Time.microsPerSecond
  maxRetries := 0
  wait := ⟨0⟩
  lastPruned := Store.epoch
  pairs_ne := by decide

/-- A world whose source gives one observation after the other, and then fails. -/
def drying : World where
  store := Store.fresh
  source := fun _ asked _ =>
    match asked.length with
    | 0 => .ok Store.early
    | 1 => .ok Store.late
    | _ => .error (.refused "simulated")
  asked := []
  clock := Store.epoch

/-- Both tasks that fetched something keep it, whichever of them has the lock first. -/
theorem crowded_in_both_orders :
    let after := (crowded.started drying).after crowded
    let first := after [0, 0, 0, 0, 0, 1, 1, 1, 1, 1, 2, 2, 2]
    let second := after [0, 0, 1, 1, 2, 1, 1, 2, 1, 0, 0, 2, 0]
    first.kept.map Kept.batch = [0, 1] ∧ second.kept.map Kept.batch = [1, 0] ∧
      first.world.store.committed = second.world.store.committed ∧
      commits first.world.store.trace = 2 := by
  intro after first second
  have hkept : first.kept.map Kept.observation = [Store.early, Store.late] := by decide +kernel
  have hsame : first.kept.map Kept.observation = second.kept.map Kept.observation := by
    decide +kernel
  obtain ⟨hsettles, -, -, -, -, horders⟩ :=
    tasks_keep_in_lock_order crowded drying fun _ => rfl
  have hordinary : ∀ x ∈ first.kept.map Kept.observation, x.IsOrdinary := by
    rw [hkept]
    intro x hx
    rcases List.mem_pair.1 hx with rfl | rfl
    · exact ⟨by decide, by decide, by decide, by decide⟩
    · exact ⟨by decide, by decide, by decide, by decide⟩
  have hapart : (first.kept.map Kept.observation).Pairwise Observation.IsApart := by
    rw [hkept]
    exact List.pairwise_pair.2 fun heq => absurd heq.2 (by decide)
  refine ⟨by decide +kernel, by decide +kernel, ?_, ?_⟩
  · exact (horders _ _ (.of_eq hsame) hordinary hapart).1
  · have hcommits := (hsettles _ : crowded.Settles drying first).commits
    have hlength := congrArg List.length hkept
    rw [List.length_map] at hlength
    rw [hcommits, hlength]
    rfl

end RateLedger.Poller
