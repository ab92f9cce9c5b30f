import RateLedger.Failure
import RateLedger.Store.Retention

/-!
# Actions of the services

A service works on a store, asks a source for rates and reads a clock. What a source says may depend
on the time and on what it was asked before. An action that fails keeps what it changed. Main
statements: what each kind of action gives and leaves (`perform_onStore`, `perform_ask`,
`perform_attempt`, `perform_bind`).
-/

namespace RateLedger

/-- What a source of rates says at a time, after it was asked for some pairs, the last one first,
when it is asked for one more. -/
abbrev Source := Time.DateTime → List Pair → Pair → Except Failure Sighting

/-- What the services work on. -/
structure World where
  store : Store
  source : Source
  /-- The pairs that the source was asked for, the last one first. -/
  asked : List Pair
  clock : Time.DateTime

/-- An action of a service. -/
abbrev Action := ExceptT Failure (StateM World)

/-- What an action gives, and the world after it. -/
def World.perform (world : World) (action : Action α) : Except Failure α × World :=
  action.run.run world

namespace Action

/-- A step on the store, as an action. -/
def onStore (step : StoreM α) : Action α := ExceptT.mk do
  let world ← get
  let (result, store) := world.store.perform step
  set { world with store }
  return result.mapError .store

/-- Puts a line into the journal. -/
def note (level : Level) (speaker : String) (text : Text.Wide) : Action Unit :=
  modify fun world => { world with store := world.store.withNote level speaker text }

/-- The reading of the clock. -/
def now : Action Time.DateTime := return (← get).clock

/-- Asks the source for the rate of a pair. -/
def ask (pair : Pair) : Action Sighting := ExceptT.mk do
  let world ← get
  set { world with asked := pair :: world.asked }
  return world.source world.clock world.asked pair

/-- Runs an action and gives its failure, if it has one, as a value. -/
def attempt (action : Action α) : Action (Except Failure α) := ExceptT.mk (Except.ok <$> action.run)

/-- A value that may be out of range. -/
def orOutOfRange : Option α → Action α
  | some value => return value
  | none => throw .outOfRange

/-- Lets time pass on the clock, in microseconds. -/
def pass (micros : Int) : Action Unit := do
  let clock ← orOutOfRange ((← now).plus? micros)
  modify fun world => { world with clock }

end Action

namespace World

@[simp] theorem perform_pure (world : World) (a : α) :
    world.perform (pure a) = (.ok a, world) := rfl

@[simp] theorem perform_throw (world : World) (failure : Failure) :
    world.perform (throw failure : Action α) = (.error failure, world) := rfl

@[simp] theorem perform_now (world : World) : world.perform Action.now = (.ok world.clock, world) :=
  rfl

theorem perform_bind (world : World) (action : Action α) (next : α → Action β) :
    world.perform (action >>= next) =
      match world.perform action with
      | (.ok a, after) => after.perform (next a)
      | (.error failure, after) => (.error failure, after) := by
  show (match action.run.run world with | (r, after) => (ExceptT.bindCont next r).run after) = _
  unfold perform
  rcases action.run.run world with ⟨_ | _, _⟩ <;> rfl

theorem perform_onStore (world : World) (step : StoreM α) :
    world.perform (Action.onStore step) =
      ((world.store.perform step).1.mapError .store,
        { world with store := (world.store.perform step).2 }) := rfl

theorem perform_ask (world : World) (pair : Pair) :
    world.perform (Action.ask pair) =
      (world.source world.clock world.asked pair, { world with asked := pair :: world.asked }) :=
  rfl

theorem perform_attempt (world : World) (action : Action α) :
    world.perform (Action.attempt action) =
      (.ok (world.perform action).1, (world.perform action).2) := rfl

end World

end RateLedger
