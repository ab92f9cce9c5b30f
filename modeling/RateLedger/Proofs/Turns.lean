import RateLedger.Poller
import RateLedger.Proofs.OwnBatches

/-!
# Pairs polled at the same time

Every pair of a round has a task of its own, which asks for the pair, opens a batch, saves the
sighting in it and commits it. The tasks share the source and the store and take turns in any
order (`Progress.after`); a task whose turn to open a batch comes while the lock is held has waited
long enough. A turn can take several calls of the engine, since they are calls that a task makes
while it has the lock: the others ask the source in the meantime, but neither see nor touch what is
in its batch. Main statements: what one turn does (`turned`), and what holds after any turns
(`accounts_after`): the committed table is what was committed before with the observations of the
tasks that kept theirs, saved in the order in which their batches were opened; as many commits
passed as observations were kept; and at most one task has a batch open.
-/

namespace RateLedger.Poller

/-- An observation that was kept, and the batch that it was saved in. -/
structure Kept where
  batch : Nat
  observation : Observation

/-- How far a task has come. -/
inductive Stage
  | waiting
  /-- It asks for its pair, so many more times at most, after it failed some times. -/
  | asking (left failed : Nat)
  /-- It knows what asking came to. -/
  | asked (result : Except Failure (Option Sighting))
  /-- It has a batch for its sighting. -/
  | opened (b : Nat) (y : Sighting)
  /-- Saving its sighting in its batch came to `result`. -/
  | saved (b : Nat) (y : Sighting) (result : Except StoreFault Unit)
  | ended (kept : Option Kept)

namespace Stage

/-- Whether the batch of a task is open. -/
def holds : Stage → Bool
  | opened _ _ | saved _ _ _ => true
  | _ => false

/-- What a task has kept. -/
def kept? : Stage → Option Kept
  | ended kept => kept
  | _ => none

/-- The sighting that a task got. -/
def found? : Stage → Option Sighting
  | asked (.ok found) => found
  | opened _ y | saved _ y _ => some y
  | ended kept => kept.map fun kept => kept.observation
  | _ => none

/-- How many more turns a task takes at most. -/
def left (attempts : Nat) : Stage → Nat
  | waiting => attempts + 5
  | asking left _ => left + 4
  | asked _ => 3
  | opened _ _ => 2
  | saved _ _ _ => 1
  | ended _ => 0

end Stage

/-- A task for a pair. -/
structure Task where
  pair : Pair
  stage : Stage

/-- A world in whose journal a sighting of a pair is given up. -/
def givingUp (pair : Pair) (isBackend : Bool) (world : World) : World :=
  (world.perform (Action.note .error speaker
    (if isBackend then "Saving " ++ pair.id ++ " failed, skipping it this tick"
    else "Unexpected failure while querying " ++ pair.id))).2

/-- A turn that asks for a pair once. -/
def asking (pair : Pair) (world : World) (left failed : Nat) : Stage × World :=
  match world.perform (fetch pair 1 failed) with
  | (.ok none, after) => (.asking left (failed + 1), after)
  | (result, after) => (.asked result, after)

/-- A turn that opens a batch for a sighting. -/
def opening (poller : Poller) (pair : Pair) (world : World) (y : Sighting) : Stage × World :=
  match world.store.perform (Store.openBatch poller.wait) with
  | (.ok b, store) => (.opened b y, { world with store })
  | (.error fault, store) => (.ended none, givingUp pair fault.isBackend { world with store })

/-- A turn that saves a sighting in its batch. -/
def saving (world : World) (b : Nat) (y : Sighting) : Stage × World :=
  let out := world.store.perform (Store.saveSighting b y)
  (.saved b y out.1, { world with store := out.2 })

/-- A turn that ends the batch of a sighting. -/
def finishing (pair : Pair) (world : World) (b : Nat) (y : Sighting)
    (result : Except StoreFault Unit) : Stage × World :=
  match world.store.perform (Store.finish b result) with
  | (.ok _, store) => (.ended (y.stored.toOption.map (⟨b, ·⟩)), { world with store })
  | (.error fault, store) => (.ended none, givingUp pair fault.isBackend { world with store })

/-- A turn of the task for a pair: it goes on up to where it lets others take turns. -/
def turn (poller : Poller) (pair : Pair) (world : World) : Stage → Stage × World
  | .waiting =>
    (.asking poller.attempts 0,
      (world.perform (Action.note .debug speaker ("Querying " ++ pair.id))).2)
  | .asking 0 _ => (.asked (.ok none), world)
  | .asking (left + 1) failed => asking pair world left failed
  | .asked (.ok none) => (.ended none, world)
  | .asked (.ok (some y)) => poller.opening pair world y
  | .asked (.error _) => (.ended none, givingUp pair false world)
  | .opened b y => saving world b y
  | .saved b y result => finishing pair world b y result
  | .ended kept => (.ended kept, world)

/-! ## What a turn does -/

/-- What all turns leave as it is. -/
structure SameSetting (before after : World) : Prop where
  source : after.source = before.source
  clock : after.clock = before.clock
  plan : after.store.plan = before.store.plan

/-- A store has its rows and its lock from another one, and no commit passed in between. -/
structure SameRows (s t : Store) : Prop where
  committed : t.committed = s.committed
  locked : t.locked = s.locked
  batches : t.batches = s.batches
  commits : commits t.trace = commits s.trace

/-- What a turn does to the store, by the stages before and after it. -/
inductive Turned (s t : Store) : Stage → Stage → Prop
  | quiet (stage next : Stage) (before : stage.holds = false) (after : next.holds = false)
    (kept : next.kept? = stage.kept?) (same : SameRows s t) : Turned s t stage next
  | opens (y : Sighting) (free : s.locked = false) (locked : t.locked = true)
    (batches : t.batches = s.batches ++ [⟨s.committed, true⟩])
    (committed : t.committed = s.committed) (commits : commits t.trace = commits s.trace) :
    Turned s t (.asked (.ok (some y))) (.opened s.batches.length y)
  | saves (b : Nat) (y : Sighting) (result : Except StoreFault Unit) (outside : s.SameOutside t)
    (view : result = .ok ⟨⟩ → ∃ x : Observation, y = x ∧ t.viewOf b = (s.viewOf b).withSaved x) :
    Turned s t (.opened b y) (.saved b y result)
  | keeps (b : Nat) (x : Observation) (free : t.locked = false)
    (count : t.batches.length = s.batches.length) (committed : t.committed = s.viewOf b)
    (commits : commits t.trace = commits s.trace + 1) :
    Turned s t (.saved b x (.ok ⟨⟩)) (.ended (some ⟨b, x⟩))
  | drops (b : Nat) (y : Sighting) (result : Except StoreFault Unit) (free : t.locked = false)
    (count : t.batches.length = s.batches.length) (committed : t.committed = s.committed)
    (commits : commits t.trace = commits s.trace) :
    Turned s t (.saved b y result) (.ended none)

/-- A batch is the last one that was opened, is open still, and has the lock. -/
structure HasBatch (s : Store) (b : Nat) : Prop where
  locked : s.locked = true
  isOpen : s.isOpen b = true
  last : s.batches.length = b + 1

/-- The batch of a task is open and sees what its turns so far made of the committed table. -/
def Stage.InBatch (s : Store) : Stage → Prop
  | .opened b _ => HasBatch s b ∧ s.viewOf b = s.committed
  | .saved b y result =>
    HasBatch s b ∧ (result = .ok ⟨⟩ →
      ∃ x : Observation, y = x ∧ s.viewOf b = s.committed.withSaved x)
  | _ => True

section

variable {poller : Poller} {pair : Pair} {world : World}

theorem SameRows.refl (s : Store) : SameRows s s := ⟨rfl, rfl, rfl, rfl⟩

theorem SameSetting.refl (world : World) : SameSetting world world := ⟨rfl, rfl, rfl⟩

/-- One attempt to fetch a pair asks the source once; a failure of the vendor is noted. -/
theorem perform_fetch_one (pair : Pair) (failed : Nat) (world : World) :
    ∃ journal, world.perform (fetch pair 1 failed) =
      (match world.source world.clock world.asked pair with
        | .ok y => .ok (some y)
        | .error (.vendor _) => .ok none
        | .error failure => .error failure,
        { world with asked := pair :: world.asked, store := { world.store with journal } }) := by
  unfold fetch
  rw [World.perform_bind, World.perform_attempt, World.perform_ask]
  dsimp only
  cases world.source world.clock world.asked pair with
  | ok x => exact ⟨_, rfl⟩
  | error failure => cases failure <;> exact ⟨_, rfl⟩

theorem turned_waiting (poller : Poller) (pair : Pair) (world : World) :
    let out := poller.turn pair world .waiting
    SameSetting world out.2 ∧ Turned world.store out.2.store .waiting out.1 :=
  ⟨⟨rfl, rfl, rfl⟩, .quiet _ _ rfl rfl rfl ⟨rfl, rfl, rfl, rfl⟩⟩

theorem turned_asking (poller : Poller) (pair : Pair) (world : World) (left failed : Nat) :
    let out := poller.turn pair world (.asking left failed)
    SameSetting world out.2 ∧ Turned world.store out.2.store (.asking left failed) out.1 := by
  cases left with
  | zero => exact ⟨.refl world, .quiet _ _ rfl rfl rfl (.refl _)⟩
  | succ left =>
    obtain ⟨journal, hfetch⟩ := perform_fetch_one pair failed world
    dsimp only [turn]
    unfold asking
    rw [hfetch]
    have hsetting : SameSetting world
        { world with asked := pair :: world.asked, store := { world.store with journal } } :=
      ⟨rfl, rfl, rfl⟩
    have hrows : SameRows world.store { world.store with journal } := ⟨rfl, rfl, rfl, rfl⟩
    cases world.source world.clock world.asked pair with
    | ok x => exact ⟨hsetting, .quiet _ _ rfl rfl rfl hrows⟩
    | error failure =>
      cases failure <;> exact ⟨hsetting, .quiet _ _ rfl rfl rfl hrows⟩

theorem turned_asked (poller : Poller) (pair : Pair) (world : World)
    (result : Except Failure (Option Sighting)) :
    let out := poller.turn pair world (.asked result)
    SameSetting world out.2 ∧ Turned world.store out.2.store (.asked result) out.1 := by
  rcases result with failure | _ | y
  · exact ⟨⟨rfl, rfl, rfl⟩, .quiet _ _ rfl rfl rfl ⟨rfl, rfl, rfl, rfl⟩⟩
  · exact ⟨.refl world, .quiet _ _ rfl rfl rfl (.refl _)⟩
  · have hcommits : commits (world.store.called .openSession).trace = commits world.store.trace :=
      commits_cons (by simp) _
    dsimp only [turn]
    unfold opening
    rw [Store.perform_openBatch]
    cases Store.waitTooLong poller.wait with
    | true => exact ⟨⟨rfl, rfl, rfl⟩, .quiet _ _ rfl rfl rfl ⟨rfl, rfl, rfl, rfl⟩⟩
    | false =>
      cases hlocked : world.store.locked with
      | true => exact ⟨⟨rfl, rfl, rfl⟩, .quiet _ _ rfl rfl rfl ⟨rfl, rfl, rfl, rfl⟩⟩
      | false =>
        cases world.store.strike? .openSession with
        | some cause =>
          exact ⟨⟨rfl, rfl, rfl⟩, .quiet _ _ rfl rfl rfl ⟨rfl, hlocked.symm, rfl, hcommits⟩⟩
        | none => exact ⟨⟨rfl, rfl, rfl⟩, .opens y hlocked rfl rfl rfl hcommits⟩

theorem turned_opened {b : Nat} {y : Sighting} (poller : Poller) (pair : Pair)
    (h : (Stage.opened b y).InBatch world.store) :
    let out := poller.turn pair world (.opened b y)
    SameSetting world out.2 ∧ Turned world.store out.2.store (.opened b y) out.1 := by
  have houtside := (Store.outside_saveSighting world.store b y world.store (.refl _)).1
  exact ⟨⟨rfl, rfl, houtside.plan⟩,
    .saves b y _ houtside fun hok => Store.exists_of_saveSighting h.1.isOpen hok⟩

/-- The last turn of a task keeps its sighting or drops it. Where the session fails to close after
its commit passed, the task has not kept anything. -/
theorem turned_saved {b : Nat} {y : Sighting} {result : Except StoreFault Unit}
    (poller : Poller) (pair : Pair) (h : (Stage.saved b y result).InBatch world.store) :
    let out := poller.turn pair world (.saved b y result)
    SameSetting world out.2 ∧ (Turned world.store out.2.store (.saved b y result) out.1 ∨
      out.1 = .ended none ∧ ∃ n, world.store.plan n .closeSession ≠ none) := by
  have hfinishes := Store.finishes h.1.isOpen h.1.locked result
  dsimp only [turn]
  unfold finishing
  generalize world.store.perform (Store.finish b result) = out at hfinishes ⊢
  obtain ⟨answer, store⟩ := out
  dsimp only at hfinishes
  have hunclosed : ∀ {cause}, world.store.Ended store (some cause) →
      ∃ n, world.store.plan n .closeSession ≠ none := by
    intro cause hended
    obtain ⟨n, hn⟩ := hended.planned
    exact ⟨n, by simp [hn]⟩
  cases hfinishes with
  | kept a closing worked ended committed commits =>
    subst worked
    obtain ⟨x, rfl, -⟩ := h.2 rfl
    cases closing with
    | none =>
      exact ⟨⟨rfl, rfl, ended.plan⟩, .inl (.keeps b x ended.free ended.count committed commits)⟩
    | some cause => exact ⟨⟨rfl, rfl, ended.plan⟩, .inr ⟨rfl, hunclosed ended⟩⟩
  | dropped fault closing cause ended committed commits struck =>
    cases closing with
    | none =>
      exact ⟨⟨rfl, rfl, ended.plan⟩,
        .inl (.drops b y result ended.free ended.count committed commits)⟩
    | some cause => exact ⟨⟨rfl, rfl, ended.plan⟩, .inr ⟨rfl, hunclosed ended⟩⟩

/-- A turn leaves the setting as it is and does one of a few things to the store, unless a session
fails to close. -/
theorem turned (poller : Poller) (pair : Pair) {stage : Stage} (h : stage.InBatch world.store) :
    let out := poller.turn pair world stage
    SameSetting world out.2 ∧ (Turned world.store out.2.store stage out.1 ∨
      out.1 = .ended none ∧ ∃ n, world.store.plan n .closeSession ≠ none) := by
  cases stage with
  | waiting => exact (turned_waiting poller pair world).imp_right .inl
  | asking left failed => exact (turned_asking poller pair world left failed).imp_right .inl
  | asked result => exact (turned_asked poller pair world result).imp_right .inl
  | opened b y => exact (turned_opened poller pair h).imp_right .inl
  | saved b y result => exact turned_saved poller pair h
  | ended kept => exact ⟨.refl world, .inl (.quiet _ _ rfl rfl rfl (.refl _))⟩

end

/-! ## Taking turns -/

/-- The tasks of a round, and the world they share. -/
structure Progress where
  tasks : List Task
  world : World

namespace Progress

/-- A turn of one of the tasks. -/
def turn (poller : Poller) (progress : Progress) (i : Nat) : Progress :=
  match progress.tasks[i]? with
  | none => progress
  | some task =>
    let out := poller.turn task.pair progress.world task.stage
    ⟨progress.tasks.set i { task with stage := out.1 }, out.2⟩

/-- What has become of the tasks after some turns, each of the task at a position. -/
def after (poller : Poller) (progress : Progress) (schedule : List Nat) : Progress :=
  schedule.foldl (turn poller) progress

/-- What the tasks have kept, by their positions. -/
def kept (progress : Progress) : List Kept := progress.tasks.filterMap (·.stage.kept?)

/-- All tasks have come to their end. -/
def IsOver (progress : Progress) : Prop :=
  ∀ task ∈ progress.tasks, ∃ kept, task.stage = .ended kept

/-- A turn changes the stage of one task, and the world. -/
theorem turn_middle (poller : Poller) (front back : List Task) (task : Task) (world : World) :
    let out := poller.turn task.pair world task.stage
    (⟨front ++ task :: back, world⟩ : Progress).turn poller front.length =
      ⟨front ++ { task with stage := out.1 } :: back, out.2⟩ := by
  simp [turn]

theorem exists_of_getElem? {progress : Progress} {i : Nat} {task : Task}
    (h : progress.tasks[i]? = some task) :
    ∃ front back, progress.tasks = front ++ task :: back ∧ front.length = i := by
  obtain ⟨hlt, rfl⟩ := List.getElem?_eq_some_iff.1 h
  refine ⟨progress.tasks.take i, progress.tasks.drop (i + 1), ?_, ?_⟩
  · rw [List.getElem_cons_drop, List.take_append_drop]
  · exact List.length_take_of_le (Nat.le_of_lt hlt)

/-- A turn is of one task. -/
theorem getElem?_turn (poller : Poller) (progress : Progress) (i j : Nat) :
    (progress.turn poller i).tasks[j]? =
      if i = j then
        progress.tasks[j]?.map fun task =>
          { task with stage := (poller.turn task.pair progress.world task.stage).1 }
      else progress.tasks[j]? := by
  unfold turn
  by_cases hij : i = j
  · subst hij
    rw [if_pos rfl]
    cases htask : progress.tasks[i]? with
    | none => exact htask
    | some task =>
      have hlt : i < progress.tasks.length := (List.getElem?_eq_some_iff.1 htask).1
      exact List.getElem?_set_self hlt
  · rw [if_neg hij]
    cases progress.tasks[i]? with
    | none => rfl
    | some task => exact List.getElem?_set_ne hij

/-- What every turn keeps is kept by any number of turns. -/
theorem after_induction {poller : Poller} {I : Progress → Prop}
    (hturn : ∀ front task back world, I ⟨front ++ task :: back, world⟩ →
      let out := poller.turn task.pair world task.stage
      I ⟨front ++ { task with stage := out.1 } :: back, out.2⟩)
    (schedule : List Nat) {progress : Progress} (h : I progress) :
    I (progress.after poller schedule) := by
  induction schedule generalizing progress with
  | nil => exact h
  | cons i rest ih =>
    have hkept : I (progress.turn poller i) := by
      cases htask : progress.tasks[i]? with
      | none =>
        unfold turn
        rw [htask]
        exact h
      | some task =>
        obtain ⟨front, back, htasks, rfl⟩ := exists_of_getElem? htask
        obtain ⟨tasks, world⟩ := progress
        obtain rfl : tasks = _ := htasks
        rw [turn_middle]
        exact hturn front task back world h
    exact ih hkept

end Progress

/-- The tasks of a poller before their first turns. -/
def started (poller : Poller) (world : World) : Progress :=
  ⟨poller.pairs.map fun pair => ⟨pair, .waiting⟩, world⟩

/-! ## The books of a round -/

/-- How the store accounts for what the tasks kept: `order` lists it by the batches, which is the
order in which the tasks had the lock. The lock is held by the one task that has a batch, or by
somebody else from the start on. -/
structure Accounts (start : World) (progress : Progress) (order : List Kept) : Prop where
  setting : SameSetting start progress.world
  kept : order.Perm progress.kept
  ascending : order.Pairwise (·.batch < ·.batch)
  earlier : ∀ kept ∈ order, kept.batch + progress.world.store.locked.toNat <
    progress.world.store.batches.length
  committed : progress.world.store.committed =
    (order.map Kept.observation).foldl Table.withSaved start.store.committed
  commits : commits progress.world.store.trace = commits start.store.trace + order.length
  lock : progress.tasks.countP (·.stage.holds) + start.store.locked.toNat =
    progress.world.store.locked.toNat
  inBatch : ∀ task ∈ progress.tasks, task.stage.InBatch progress.world.store

section

variable {poller : Poller} {start world after : World} {front back : List Task} {pair : Pair}
  {stage next : Stage} {order : List Kept}

theorem inBatch_of_holds {s : Store} (h : stage.holds = false) : stage.InBatch s := by
  cases stage with
  | opened _ _ | saved _ _ _ => cases h
  | _ => trivial

theorem SameRows.hasBatch {s t : Store} {b : Nat} (h : SameRows s t) (hbatch : HasBatch s b) :
    HasBatch t b ∧ t.viewOf b = s.viewOf b := by
  unfold Store.viewOf
  rw [h.batches]
  refine ⟨⟨h.locked.trans hbatch.locked, ?_, h.batches ▸ hbatch.last⟩, rfl⟩
  have hopen := hbatch.isOpen
  unfold Store.isOpen at hopen ⊢
  rw [h.batches]
  exact hopen

theorem SameRows.inBatch {s t : Store} (h : SameRows s t) (hbatch : stage.InBatch s) :
    stage.InBatch t := by
  cases stage with
  | opened b y =>
    obtain ⟨hhas, hview⟩ := h.hasBatch hbatch.1
    exact ⟨hhas, (hview.trans hbatch.2).trans h.committed.symm⟩
  | saved b y result =>
    obtain ⟨hhas, hview⟩ := h.hasBatch hbatch.1
    refine ⟨hhas, fun hok => ?_⟩
    rw [hview, h.committed]
    exact hbatch.2 hok
  | _ => trivial

theorem SameSetting.trans {middle : World} (h : SameSetting world middle)
    (hnext : SameSetting middle after) : SameSetting world after :=
  ⟨hnext.source.trans h.source, hnext.clock.trans h.clock, hnext.plan.trans h.plan⟩

/-- Where the turn is taken by the task that has the lock, or nobody has it, the others have no
batch, so the lock and the batches are accounted for by that task alone. -/
theorem Accounts.alone (h : Accounts start ⟨front ++ ⟨pair, stage⟩ :: back, world⟩ order)
    (halone : stage.holds = true ∨ world.store.locked = false)
    (hlocked : after.store.locked = next.holds) (hbatch : next.InBatch after.store) :
    (front ++ ⟨pair, next⟩ :: back).countP (·.stage.holds) + start.store.locked.toNat =
        after.store.locked.toNat ∧
      ∀ task ∈ front ++ ⟨pair, next⟩ :: back, task.stage.InBatch after.store := by
  have hcount := h.lock
  simp only [List.countP_append, List.countP_cons] at hcount ⊢
  have hothers : front.countP (·.stage.holds) = 0 ∧ back.countP (·.stage.holds) = 0 ∧
      start.store.locked.toNat = 0 := by
    rcases halone with hholds | hfree
    · have hone : world.store.locked.toNat ≤ 1 := Bool.toNat_le _
      rw [hholds, if_pos rfl] at hcount
      omega
    · rw [hfree, Bool.toNat_false] at hcount
      omega
  rw [hothers.1, hothers.2.1, hothers.2.2, hlocked]
  refine ⟨by cases next.holds <;> rfl, fun task htask => ?_⟩
  rcases List.mem_append.1 htask with hfront | hback
  · have hquiet := List.countP_eq_zero.1 hothers.1 task hfront
    exact inBatch_of_holds (Bool.eq_false_iff.2 hquiet)
  · rcases List.mem_cons.1 hback with rfl | hback
    · exact hbatch
    · have hquiet := List.countP_eq_zero.1 hothers.2.1 task hback
      exact inBatch_of_holds (Bool.eq_false_iff.2 hquiet)

/-- A turn by which nothing is kept and nothing committed leaves the books as they are. -/
theorem Accounts.unkept (h : Accounts start ⟨front ++ ⟨pair, stage⟩ :: back, world⟩ order)
    (hsetting : SameSetting world after) (hkept : next.kept? = stage.kept?)
    (hcommitted : after.store.committed = world.store.committed)
    (hcommits : RateLedger.commits after.store.trace = RateLedger.commits world.store.trace)
    (hearlier : ∀ kept ∈ order, kept.batch + after.store.locked.toNat < after.store.batches.length)
    (hlock : (front ++ ⟨pair, next⟩ :: back).countP (·.stage.holds) + start.store.locked.toNat =
      after.store.locked.toNat ∧
      ∀ task ∈ front ++ ⟨pair, next⟩ :: back, task.stage.InBatch after.store) :
    Accounts start ⟨front ++ ⟨pair, next⟩ :: back, after⟩ order where
  setting := h.setting.trans hsetting
  kept := by
    refine h.kept.trans (.of_eq ?_)
    simp only [Progress.kept, List.filterMap_append, List.filterMap_cons, hkept]
  ascending := h.ascending
  earlier := hearlier
  committed := hcommitted.trans h.committed
  commits := hcommits.trans h.commits
  lock := hlock.1
  inBatch := hlock.2

theorem Accounts.quiet (h : Accounts start ⟨front ++ ⟨pair, stage⟩ :: back, world⟩ order)
    (hsetting : SameSetting world after) (hstage : stage.holds = false)
    (hnext : next.holds = false) (hkept : next.kept? = stage.kept?)
    (hsame : SameRows world.store after.store) :
    Accounts start ⟨front ++ ⟨pair, next⟩ :: back, after⟩ order := by
  refine h.unkept hsetting hkept hsame.committed hsame.commits ?_ ⟨?_, fun task htask => ?_⟩
  · rw [hsame.locked, hsame.batches]
    exact h.earlier
  · have hcount := h.lock
    simp only [List.countP_append, List.countP_cons, hstage, hnext] at hcount ⊢
    rw [hsame.locked]
    exact hcount
  · have hbefore : ∀ task ∈ front ++ back, task.stage.InBatch after.store := by
      intro task htask
      refine hsame.inBatch (h.inBatch task ?_)
      rcases List.mem_append.1 htask with hfront | hback
      · exact List.mem_append_left _ hfront
      · exact List.mem_append_right _ (List.mem_cons_of_mem _ hback)
    rcases List.mem_append.1 htask with hfront | hback
    · exact hbefore task (List.mem_append_left _ hfront)
    · rcases List.mem_cons.1 hback with rfl | hback
      · exact inBatch_of_holds hnext
      · exact hbefore task (List.mem_append_right _ hback)

/-- Every turn keeps the books in order: its task appends what it kept, if anything. -/
theorem Accounts.turned (h : Accounts start ⟨front ++ ⟨pair, stage⟩ :: back, world⟩ order)
    (hsetting : SameSetting world after) (hturned : Turned world.store after.store stage next) :
    ∃ order, Accounts start ⟨front ++ ⟨pair, next⟩ :: back, after⟩ order := by
  have hmine : stage.InBatch world.store :=
    h.inBatch ⟨pair, stage⟩ (List.mem_append_right _ List.mem_cons_self)
  cases hturned with
  | quiet stage next before after kept same =>
    exact ⟨order, h.quiet hsetting before after kept same⟩
  | opens y free locked batches committed commits =>
    have hopen : HasBatch after.store world.store.batches.length := by
      refine ⟨locked, ?_, by rw [batches, List.length_append]; rfl⟩
      unfold Store.isOpen
      rw [batches]
      simp
    have hview : after.store.viewOf world.store.batches.length = after.store.committed := by
      unfold Store.viewOf
      rw [batches, committed]
      simp
    refine ⟨order, h.unkept hsetting rfl committed commits ?_
      (h.alone (.inr free) locked ⟨hopen, hview⟩)⟩
    have hearlier := h.earlier
    rw [free] at hearlier
    rw [locked, batches, List.length_append]
    exact fun kept hkept => Nat.succ_lt_succ (hearlier kept hkept)
  | saves b y result outside view =>
    have hlocked : after.store.locked = true := outside.locked.trans hmine.1.locked
    have hbatch : HasBatch after.store b :=
      ⟨hlocked, (outside.isOpen b).trans hmine.1.isOpen, outside.count.trans hmine.1.last⟩
    have hview : result = .ok ⟨⟩ →
        ∃ x : Observation, y = x ∧ after.store.viewOf b = after.store.committed.withSaved x := by
      intro hok
      obtain ⟨x, hx, hsaved⟩ := view hok
      rw [hmine.2, ← outside.committed] at hsaved
      exact ⟨x, hx, hsaved⟩
    refine ⟨order, h.unkept hsetting rfl outside.committed outside.commits ?_
      (h.alone (.inl rfl) hlocked ⟨hbatch, hview⟩)⟩
    rw [outside.locked, outside.count]
    exact h.earlier
  | keeps b x free count committed commits =>
    have hearlier := h.earlier
    rw [hmine.1.locked, hmine.1.last] at hearlier
    have hfree : after.store.locked = (Stage.ended (some ⟨b, x⟩)).holds := free
    have hlock := h.alone (.inl rfl) hfree trivial
    refine ⟨order ++ [⟨b, x⟩], h.setting.trans hsetting, ?_, ?_, ?_, ?_, ?_, hlock.1, hlock.2⟩
    · have hkept := h.kept
      simp only [Progress.kept, List.filterMap_append, List.filterMap_cons, Stage.kept?] at hkept ⊢
      refine (hkept.append_right _).trans ((List.perm_append_singleton _ _).trans ?_)
      exact List.perm_middle.symm
    · refine List.pairwise_append.2 ⟨h.ascending, List.pairwise_singleton _ _, ?_⟩
      intro kept hkept last hlast
      rw [List.mem_singleton.1 hlast]
      exact Nat.lt_of_succ_lt_succ (hearlier kept hkept)
    · rw [free, count, hmine.1.last]
      intro kept hkept
      rcases List.mem_append.1 hkept with hmem | hmem
      · exact Nat.lt_of_succ_lt (hearlier kept hmem)
      · rw [List.mem_singleton.1 hmem]
        exact Nat.lt_succ_self b
    · obtain ⟨z, hz, hview⟩ := hmine.2 rfl
      obtain rfl := Sighting.ofObservation_inj hz
      rw [committed, hview, h.committed, List.map_append, List.foldl_append]
      rfl
    · rw [commits, h.commits, List.length_append]
      rfl
  | drops b y result free count committed commits =>
    refine ⟨order, h.unkept hsetting rfl committed commits ?_ (h.alone (.inl rfl) free trivial)⟩
    rw [free, count]
    exact fun kept hkept => Nat.lt_of_le_of_lt (Nat.le_add_right _ _) (h.earlier kept hkept)

end

theorem accounts_started (poller : Poller) (world : World) :
    Accounts world (poller.started world) [] := by
  have hwaiting : ∀ task ∈ (poller.started world).tasks, task.stage = .waiting := by
    intro task htask
    obtain ⟨pair, -, rfl⟩ := List.mem_map.1 htask
    rfl
  refine ⟨.refl world, ?_, .nil, nofun, rfl, rfl, ?_, fun task htask => ?_⟩
  · refine .of_eq (Eq.symm (List.filterMap_eq_nil_iff.2 fun task htask => ?_))
    rw [hwaiting task htask]
    rfl
  · have hnone : (poller.started world).tasks.countP (·.stage.holds) = 0 := by
      refine List.countP_eq_zero.2 fun task htask => ?_
      rw [hwaiting task htask]
      exact Bool.false_ne_true
    rw [hnone, Nat.zero_add]
    rfl
  · rw [hwaiting task htask]
    trivial

/-- A turn of the poller keeps the books in order, unless a session fails to close. -/
theorem Accounts.turn_or_ended {start world : World} {front back : List Task} {task : Task}
    {order : List Kept} (h : Accounts start ⟨front ++ task :: back, world⟩ order)
    (poller : Poller) :
    let out := poller.turn task.pair world task.stage
    (∃ order, Accounts start ⟨front ++ { task with stage := out.1 } :: back, out.2⟩ order) ∨
      out.1 = .ended none ∧ ∃ n, start.store.plan n .closeSession ≠ none := by
  have hmine : task.stage.InBatch world.store :=
    h.inBatch task (List.mem_append_right _ List.mem_cons_self)
  obtain ⟨hsetting, hturned⟩ := Poller.turned poller task.pair hmine
  rw [← h.setting.plan]
  exact hturned.imp_left (h.turned hsetting)

/-- A turn of the poller keeps the books in order. -/
theorem Accounts.turn {start world : World} {front back : List Task} {task : Task}
    {order : List Kept} (h : Accounts start ⟨front ++ task :: back, world⟩ order)
    (hclose : ∀ n, start.store.plan n .closeSession = none) (poller : Poller) :
    let out := poller.turn task.pair world task.stage
    ∃ order, Accounts start ⟨front ++ { task with stage := out.1 } :: back, out.2⟩ order := by
  refine (h.turn_or_ended poller).resolve_right ?_
  rintro ⟨-, n, hn⟩
  exact hn (hclose n)

/-- After any turns the store accounts for what the tasks kept. -/
theorem accounts_after (poller : Poller) {world : World}
    (hclose : ∀ n, world.store.plan n .closeSession = none) (schedule : List Nat) :
    ∃ order, Accounts world ((poller.started world).after poller schedule) order := by
  refine Progress.after_induction (I := fun progress => ∃ order, Accounts world progress order)
    (fun front task back now h => ?_) schedule ⟨[], accounts_started poller world⟩
  obtain ⟨order, h⟩ := h
  exact h.turn hclose poller

end RateLedger.Poller
