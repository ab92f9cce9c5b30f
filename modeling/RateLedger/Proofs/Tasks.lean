import RateLedger.Proofs.Turns

/-!
# What becomes of a polling task

A task has a pair, and comes to its end by a number of turns of its own that does not depend on the
others (`ended_after`). The sighting it gets is one that the source gave for its pair
(`sourced_after`), and if that is an observation, it stays on the way to keep it, unless the lock is
held at its turn, a call of the engine fails in its turn, or the identity row of its pair cannot be
read (`hopeful_turn`). So a task that fails stops no other one.
-/

namespace RateLedger.Poller

theorem pairs_after (poller : Poller) (progress : Progress) (schedule : List Nat) :
    (progress.after poller schedule).tasks.map Task.pair = progress.tasks.map Task.pair := by
  refine Progress.after_induction
    (I := fun now => now.tasks.map Task.pair = progress.tasks.map Task.pair)
    (fun front task back world h => ?_) schedule rfl
  rw [← h]
  simp

/-- A round has a task for each pair of its poller. -/
theorem pairs_started_after (poller : Poller) (world : World) (schedule : List Nat) :
    ((poller.started world).after poller schedule).tasks.map Task.pair = poller.pairs := by
  rw [pairs_after]
  unfold started
  rw [List.map_map]
  exact List.map_id _

/-- Each turn of a task brings it closer to its end. -/
theorem left_turn (poller : Poller) (pair : Pair) (world : World) (stage : Stage) :
    (poller.turn pair world stage).1.left poller.attempts ≤ stage.left poller.attempts - 1 := by
  cases stage with
  | waiting => exact Nat.le_refl _
  | asking left failed =>
    cases left with
    | zero => exact Nat.le_refl _
    | succ left =>
      dsimp only [turn]
      unfold asking
      split
      · exact Nat.le_refl _
      · exact Nat.le_add_left 3 (left + 1)
  | asked result =>
    rcases result with failure | _ | y
    · exact Nat.zero_le _
    · exact Nat.zero_le _
    · dsimp only [turn]
      unfold opening
      split
      · exact Nat.le_refl _
      · exact Nat.zero_le _
  | opened b y => exact Nat.le_refl _
  | saved b y result =>
    dsimp only [turn]
    unfold finishing
    split <;> exact Nat.zero_le _
  | ended kept => exact Nat.zero_le _

/-- A task is brought closer to its end by its own turns, whatever becomes of the others. -/
theorem left_after (poller : Poller) {progress : Progress} (schedule : List Nat) {i : Nat}
    {task : Task} (htask : progress.tasks[i]? = some task) :
    ∃ later, (progress.after poller schedule).tasks[i]? = some later ∧
      later.stage.left poller.attempts ≤
        task.stage.left poller.attempts - schedule.count i := by
  induction schedule generalizing progress task with
  | nil => exact ⟨task, htask, Nat.le_refl _⟩
  | cons j rest ih =>
    have hturn := progress.getElem?_turn poller j i
    rw [htask] at hturn
    by_cases hij : j = i
    · subst hij
      rw [if_pos rfl] at hturn
      obtain ⟨later, hlater, hleft⟩ := ih hturn
      have hmine := left_turn poller task.pair progress.world task.stage
      refine ⟨later, hlater, ?_⟩
      rw [List.count_cons_self]
      dsimp only at hleft
      omega
    · rw [if_neg hij] at hturn
      obtain ⟨later, hlater, hleft⟩ := ih hturn
      refine ⟨later, hlater, ?_⟩
      rw [List.count_cons_of_ne hij]
      exact hleft

theorem ended_of_left {attempts : Nat} {stage : Stage} (h : stage.left attempts = 0) :
    ∃ kept, stage = .ended kept := by
  cases stage with
  | ended kept => exact ⟨kept, rfl⟩
  | _ => cases h

/-- A task of a round has come to its end after so many turns of its own. -/
theorem ended_after (poller : Poller) (world : World) {schedule : List Nat} {i : Nat}
    (hi : i < poller.pairs.length) (hcount : poller.attempts + 5 ≤ schedule.count i) :
    ∃ kept, ((poller.started world).after poller schedule).tasks[i]? =
      some ⟨poller.pairs[i], .ended kept⟩ := by
  have htask : (poller.started world).tasks[i]? = some ⟨poller.pairs[i], .waiting⟩ := by
    simp [started, hi]
  obtain ⟨⟨pair, stage⟩, hlater, hleft⟩ := left_after poller schedule htask
  have hnone : stage.left poller.attempts = 0 := by
    have hwaiting : Stage.waiting.left poller.attempts = poller.attempts + 5 := rfl
    dsimp only at hleft
    omega
  obtain ⟨kept, rfl⟩ := ended_of_left hnone
  have hpair : (((poller.started world).after poller schedule).tasks.map Task.pair)[i]? =
      ((poller.started world).tasks.map Task.pair)[i]? := by
    rw [pairs_after]
  rw [List.getElem?_map, List.getElem?_map, hlater, htask] at hpair
  obtain rfl : pair = poller.pairs[i] := Option.some.inj hpair
  exact ⟨kept, hlater⟩

/-! ## Where sightings come from -/

/-- A sighting of a task is one that the source gave for its pair. -/
def IsSourced (world : World) (task : Task) : Prop :=
  ∀ y, task.stage.found? = some y → ∃ asked, world.source world.clock asked task.pair = .ok y

theorem found_turn {poller : Poller} {pair : Pair} {world : World} {stage : Stage}
    {y : Sighting} (h : (poller.turn pair world stage).1.found? = some y) :
    stage.found? = some y ∨ world.source world.clock world.asked pair = .ok y := by
  cases stage with
  | waiting => cases h
  | asking left failed =>
    cases left with
    | zero => cases h
    | succ left =>
      obtain ⟨journal, hfetch⟩ := perform_fetch_one pair failed world
      dsimp only [turn] at h
      unfold asking at h
      rw [hfetch] at h
      cases hsource : world.source world.clock world.asked pair with
      | ok z =>
        rw [hsource] at h
        exact .inr (congrArg Except.ok (Option.some.inj h))
      | error failure =>
        rw [hsource] at h
        cases failure <;> cases h
  | asked result =>
    rcases result with failure | _ | z
    · cases h
    · cases h
    · refine .inl ?_
      dsimp only [turn] at h
      unfold opening at h
      split at h
      · exact h
      · cases h
  | opened b z => exact .inl h
  | saved b z result =>
    refine .inl ?_
    dsimp only [turn] at h
    unfold finishing at h
    split at h
    · cases hstored : z.stored with
      | error flaw =>
        rw [hstored] at h
        cases h
      | ok x =>
        obtain rfl := Sighting.stored_eq_ok_iff.1 hstored
        exact h
    · cases h
  | ended kept => exact .inl h

theorem sourced_started (poller : Poller) (world : World) :
    ∀ task ∈ (poller.started world).tasks, IsSourced world task := by
  intro task htask
  obtain ⟨pair, -, rfl⟩ := List.mem_map.1 htask
  exact nofun

/-- A turn in the setting of the start gets its sighting from the source there. -/
theorem sourced_turn {poller : Poller} {start world : World} {front back : List Task} {task : Task}
    (hsetting : SameSetting start world)
    (h : ∀ other ∈ front ++ task :: back, IsSourced start other) :
    ∀ other ∈ front ++ { task with stage := (poller.turn task.pair world task.stage).1 } :: back,
      IsSourced start other := by
  intro other hother
  rcases List.mem_append.1 hother with hmem | hmem
  · exact h other (List.mem_append_left _ hmem)
  · rcases List.mem_cons.1 hmem with rfl | hmem
    · intro y hy
      rcases found_turn hy with hbefore | hnow
      · exact h task (List.mem_append_right _ List.mem_cons_self) y hbefore
      · rw [hsetting.source, hsetting.clock] at hnow
        exact ⟨world.asked, hnow⟩
    · exact h other (List.mem_append_right _ (List.mem_cons_of_mem _ hmem))

theorem sourced_after (poller : Poller) {world : World}
    (hclose : ∀ n, world.store.plan n .closeSession = none) (schedule : List Nat) :
    ∀ task ∈ ((poller.started world).after poller schedule).tasks, IsSourced world task := by
  refine (Progress.after_induction
    (I := fun progress => (∃ order, Accounts world progress order) ∧
      ∀ task ∈ progress.tasks, IsSourced world task)
    (fun front task back now h => ?_) schedule
    ⟨⟨[], accounts_started poller world⟩, sourced_started poller world⟩).2
  obtain ⟨⟨order, h⟩, hsourced⟩ := h
  exact ⟨h.turn hclose poller, sourced_turn h.setting hsourced⟩

/-- Where no task ended without an observation, the sessions closed as far as it matters: the store
accounts for what the tasks kept, and the source gave it. -/
theorem accounts_of_kept (poller : Poller) (world : World) (schedule : List Nat) :
    let progress := (poller.started world).after poller schedule
    (∀ task ∈ progress.tasks, task.stage ≠ .ended none) →
      (∃ order, Accounts world progress order) ∧ ∀ task ∈ progress.tasks, IsSourced world task := by
  intro progress hkept
  -- A task that ended without an observation stays like that, so there never was one.
  refine (Progress.after_induction
    (I := fun progress => (∃ task ∈ progress.tasks, task.stage = .ended none) ∨
      (∃ order, Accounts world progress order) ∧ ∀ task ∈ progress.tasks, IsSourced world task)
    (fun front task back now h => ?_) schedule
    (.inr ⟨⟨[], accounts_started poller world⟩, sourced_started poller world⟩)).resolve_left ?_
  · rcases h with ⟨lost, hmem, hlost⟩ | ⟨⟨order, h⟩, hsourced⟩
    · left
      rcases List.mem_append.1 hmem with hfront | hmem
      · exact ⟨lost, List.mem_append_left _ hfront, hlost⟩
      · rcases List.mem_cons.1 hmem with rfl | hback
        · exact ⟨_, List.mem_append_right _ List.mem_cons_self, by rw [hlost]; rfl⟩
        · exact ⟨lost, List.mem_append_right _ (List.mem_cons_of_mem _ hback), hlost⟩
    · rcases h.turn_or_ended poller with hbooks | ⟨hended, -⟩
      · exact .inr ⟨hbooks, sourced_turn h.setting hsourced⟩
      · exact .inl ⟨_, List.mem_append_right _ List.mem_cons_self, hended⟩
  · rintro ⟨task, htask, hended⟩
    exact hkept task htask hended

/-! ## What a task can fail of -/

/-- A task is on the way to keep an observation. -/
def Stage.IsHopeful (x : Observation) : Stage → Prop
  | .saved _ y result => y = x ∧ result = .ok ⟨⟩
  | stage => stage.found? = some (x : Sighting)

/-- The identity row of the pair of an observation cannot be read. -/
def IsUnreadable (table : Table) (x : Observation) : Prop :=
  ∃ value fault, table.lookup (Key.ofPair x) = some value ∧ readRecord value = .error fault

theorem answer_of_readable {table : Table} {x : Observation} (h : ¬IsUnreadable table x) :
    (table.draft (.save x)).answer = .ok ⟨⟩ := by
  have hne : Key.ofPair x ≠ Key.ofObservation x := by
    intro heq
    have hlength := congrArg List.length heq
    unfold Key.ofObservation at hlength
    rw [Key.length_timed] at hlength
    exact Nat.ne_of_lt (Nat.lt_add_of_pos_right (by decide)) hlength
  show ((table.insert (Key.ofObservation x) x.toRecord).draftNewest x).answer = _
  unfold Table.draftNewest
  rw [Table.lookup_insert, if_neg hne]
  cases hlookup : table.lookup (Key.ofPair x) with
  | none => rfl
  | some value =>
    dsimp only
    cases hread : readRecord value with
    | error fault => exact absurd ⟨value, fault, hlookup, hread⟩ h
    | ok current =>
      dsimp only
      split <;> rfl

theorem struck_called {s : Store} {call : EngineCall} {outage : Outage}
    (h : s.strike? call = some outage) : s.Struck (s.called call) := by
  refine ⟨[⟨call, s.strike? call⟩], rfl, fun hfine => ?_⟩
  cases h.symm.trans (hfine _ List.mem_cons_self)

/-- Why a turn takes a task off its way to keep an observation: the lock is held or cannot be waited
for, a call of the engine fails in this turn, or an identity row cannot be read. -/
def Stops (poller : Poller) (before after : World) (stage : Stage) (x : Observation) : Prop :=
  (stage = .asked (.ok (some (x : Sighting))) ∧
    (before.store.locked = true ∨ Store.waitTooLong poller.wait = true)) ∨
  before.store.Struck after.store ∨ IsUnreadable before.store.committed x

section

variable {poller : Poller} {pair : Pair} {world : World} {x : Observation}

theorem hopeful_asked :
    let stage : Stage := .asked (.ok (some (x : Sighting)))
    let out := poller.turn pair world stage
    out.1.IsHopeful x ∨ poller.Stops world out.2 stage x := by
  intro stage
  dsimp only [turn]
  unfold opening
  rw [Store.perform_openBatch]
  cases hwait : Store.waitTooLong poller.wait with
  | true => exact .inr (.inl ⟨rfl, .inr hwait⟩)
  | false =>
    cases hlocked : world.store.locked with
    | true => exact .inr (.inl ⟨rfl, .inl hlocked⟩)
    | false =>
      rw [if_neg Bool.false_ne_true, if_neg Bool.false_ne_true]
      cases hstrike : world.store.strike? .openSession with
      | some cause => exact .inr (.inr (.inl (struck_called hstrike)))
      | none => exact .inl rfl

theorem hopeful_opened {b : Nat} (h : (Stage.opened b x).InBatch world.store) :
    let out := poller.turn pair world (.opened b x)
    out.1.IsHopeful x ∨ poller.Stops world out.2 (.opened b x) x := by
  by_cases hread : IsUnreadable world.store.committed x
  · exact .inr (.inr (.inr hread))
  · have hanswer := answer_of_readable hread
    have hsaves := (Store.works_save h.1.isOpen x).run world.store.trace
    rw [h.2, hanswer] at hsaves
    dsimp only [turn]
    unfold saving
    have hsame : world.store.withTrace world.store.trace = world.store := rfl
    have hsaving : Store.saveSighting b (x : Sighting) = Store.save b x := rfl
    rw [hsame] at hsaves
    obtain ⟨events, ⟨-, hrun⟩ | ⟨hbad, -, fault, mid, -, hrun⟩⟩ := hsaves
    · rw [hsaving, hrun]
      exact .inl ⟨rfl, rfl⟩
    · rw [hsaving, hrun]
      exact .inr (.inr (.inl ⟨events, rfl, hbad⟩))

theorem hopeful_saved {b : Nat} (h : (Stage.saved b x (.ok ⟨⟩)).InBatch world.store)
    (hclose : ∀ n, world.store.plan n .closeSession = none) :
    let out := poller.turn pair world (.saved b x (.ok ⟨⟩))
    out.1.IsHopeful x ∨ poller.Stops world out.2 (.saved b x (.ok ⟨⟩)) x := by
  have hfinishes := Store.finishes h.1.isOpen h.1.locked (Except.ok PUnit.unit)
  dsimp only [turn]
  unfold finishing
  generalize world.store.perform (Store.finish b (.ok PUnit.unit)) = out at hfinishes ⊢
  obtain ⟨answer, store⟩ := out
  dsimp only at hfinishes
  cases hfinishes with
  | kept a closing worked ended committed commits =>
    obtain ⟨n, hn⟩ := ended.planned
    obtain rfl : closing = none := hn.symm.trans (hclose n)
    exact .inl rfl
  | dropped fault closing cause ended committed commits struck =>
    obtain ⟨n, hn⟩ := ended.planned
    obtain rfl : closing = none := hn.symm.trans (hclose n)
    exact .inr (.inr (.inl (struck _ rfl)))

/-- A task on the way to keep an observation stays so, but for failures of its own. -/
theorem hopeful_turn (poller : Poller) (pair : Pair) {stage : Stage} (h : stage.IsHopeful x)
    (hbatch : stage.InBatch world.store) (hclose : ∀ n, world.store.plan n .closeSession = none) :
    let out := poller.turn pair world stage
    out.1.IsHopeful x ∨ poller.Stops world out.2 stage x := by
  cases stage with
  | waiting => cases h
  | asking left failed => cases h
  | asked result =>
    obtain rfl : result = .ok (some (x : Sighting)) := by
      rcases result with failure | found
      · cases h
      · exact congrArg Except.ok h
    exact hopeful_asked
  | opened b y =>
    obtain rfl : y = (x : Sighting) := Option.some.inj h
    exact hopeful_opened hbatch
  | saved b y result =>
    obtain ⟨rfl, rfl⟩ := h
    exact hopeful_saved hbatch hclose
  | ended kept => exact .inl h

end

/-- After any turns of all tasks, the next turn of one that is on its way leaves it there, but for
failures of its own. -/
theorem hopeful_after (poller : Poller) {world : World}
    (hclose : ∀ n, world.store.plan n .closeSession = none) (schedule : List Nat) {i : Nat}
    {task : Task} {x : Observation} :
    let progress := (poller.started world).after poller schedule
    let next := progress.turn poller i
    progress.tasks[i]? = some task → task.stage.IsHopeful x →
      ∃ later, next.tasks[i]? = some later ∧
        (later.stage.IsHopeful x ∨ poller.Stops progress.world next.world task.stage x) := by
  intro progress next htask hhopeful
  obtain ⟨order, h⟩ := accounts_after poller hclose schedule
  have hnow : ∀ n, progress.world.store.plan n .closeSession = none := by
    intro n
    rw [h.setting.plan]
    exact hclose n
  have hbatch : task.stage.InBatch progress.world.store :=
    h.inBatch task (List.mem_of_getElem? htask)
  have hturn := hopeful_turn poller task.pair hhopeful hbatch hnow
  have hlater := progress.getElem?_turn poller i i
  rw [if_pos rfl, htask] at hlater
  refine ⟨_, hlater, ?_⟩
  have hworld : next.world = (poller.turn task.pair progress.world task.stage).2 := by
    show (progress.turn poller i).world = _
    unfold Progress.turn
    rw [htask]
  rw [hworld]
  exact hturn

end RateLedger.Poller
