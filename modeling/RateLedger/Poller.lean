import RateLedger.Service

/-!
# Polling

A poller asks for all its pairs once a minute and saves each rate in a batch of its own. A pair for
which the vendor fails is asked for again at once, a limited number of times, and then left until
the next round; a failure with one pair does not touch the others. After a round the history is
pruned if more time than the retention went by since the last time.
-/

namespace RateLedger

/-- What to poll, and how. -/
structure Polling where
  pairs : List Pair
  /-- How long observations are kept, in microseconds. -/
  retention : Int
  /-- How often a failing pair is asked for again. -/
  maxRetries : Int
  /-- How many seconds to wait for the lock. -/
  wait : Binary64

/-- A poller. -/
structure Poller extends Polling where
  /-- When the history was pruned last. -/
  lastPruned : Time.DateTime
  pairs_ne : pairs ≠ []

namespace Poller

/-- The name under which the poller speaks. -/
def speaker : String := "services.oracle_daemon"

/-- A poller that starts at a time; its first pruning is due as soon as time goes on. -/
def make (polling : Polling) (start : Time.DateTime) : Except Failure Poller :=
  if h : polling.pairs ≠ [] then
    match start.minus? polling.retention with
    | some lastPruned => .ok ⟨polling, lastPruned, h⟩
    | none => .error .outOfRange
  else .error (.refused "pairs must contain at least one entry")

/-! ## Rounds -/

/-- Asks for a pair up to `attempts` times, after it failed some times already. -/
def fetch (pair : Pair) : (attempts failed : Nat) → Action (Option Sighting)
  | 0, _ => return none
  | attempts + 1, failed => do
    match ← Action.attempt (Action.ask pair) with
    | .ok y => return some y
    | .error (.vendor error) =>
      Action.note .error speaker ("Query failed on " ++ pair.id ++ ", retries=" ++
        Number.Decimal.ofNat failed ++ ": " ++ error.fault.message)
      fetch pair attempts (failed + 1)
    | .error failure => throw failure

/-- Saves a sighting; a failure of the store as such is noted. -/
def keep (poller : Poller) (pair : Pair) (y : Sighting) : Action Bool := do
  match ← Action.attempt (Action.onStore (Store.keep y poller.wait)) with
  | .ok () => return true
  | .error failure =>
    if failure.isBackend then
      Action.note .error speaker ("Saving " ++ pair.id ++ " failed, skipping it this tick")
      return false
    else throw failure

/-- How often a pair is asked for in a round at most. -/
def attempts (poller : Poller) : Nat := (poller.maxRetries + 1).toNat

/-- Asks for the rate of a pair. -/
def ask (poller : Poller) (pair : Pair) : Action (Option Sighting) := do
  Action.note .debug speaker ("Querying " ++ pair.id)
  fetch pair poller.attempts 0

/-- Saves what was fetched for a pair, if anything; says whether it was saved. -/
def keepFound (poller : Poller) (pair : Pair) : Option Sighting → Action Bool
  | none => return false
  | some y => poller.keep pair y

/-- Asks for a pair and saves its rate; says whether it was saved. -/
def query (poller : Poller) (pair : Pair) : Action Bool := do
  poller.keepFound pair (← poller.ask pair)

/-- What asking for a pair came to. -/
structure Fetched where
  pair : Pair
  result : Except Failure (Option Sighting)

/-- Asks for all pairs; a failure with one does not touch the others. -/
def fetchAll (poller : Poller) : Action (List Fetched) :=
  poller.pairs.mapM fun pair => return ⟨pair, ← Action.attempt (poller.ask pair)⟩

/-- Saves what was fetched for a pair; a failure counts as not saved. -/
def keepApart (poller : Poller) (fetched : Fetched) : Action Bool := do
  let kept : Action Bool := do
    poller.keepFound fetched.pair (← ExceptT.mk (pure fetched.result))
  match ← Action.attempt kept with
  | .ok saved => return saved
  | .error _ =>
    Action.note .error speaker ("Unexpected failure while querying " ++ fetched.pair.id)
    return false

/-- Saves what was fetched in some order and counts the pairs saved. -/
def keepAll (poller : Poller) (order : List Fetched) : Action Nat :=
  return ((← order.mapM poller.keepApart).filter id).length

/-! ## Pruning -/

/-- Whether pruning is due at a time; the clock has to know its distance from UTC as before. -/
def isDue (poller : Poller) (now : Time.DateTime) : Except Failure Bool :=
  match now.since? poller.lastPruned with
  | some passed => .ok (poller.retention < passed)
  | none => .error (.store .mixedClocks)

/-- Prunes the history at a time. A failure of the store as such is noted. -/
def prune (poller : Poller) (now : Time.DateTime) : Action (Option Nat) := do
  let cutoff ← Action.orOutOfRange (now.minus? poller.retention)
  match ← Action.attempt (Action.onStore (Store.prune cutoff poller.wait)) with
  | .ok count =>
    Action.note .info speaker ("Compaction cleaned " ++ Number.Decimal.ofNat count ++ " items")
    return some count
  | .error failure =>
    if failure.isBackend then
      Action.note .error speaker "Compaction failed"
      return none
    else throw failure

/-- Prunes the history if that is due, and gives the poller that knows of it. -/
def pruneIfDue (poller : Poller) : StateM World (Except Failure (Option Nat) × Poller) := do
  let now := (← get).clock
  match poller.isDue now with
  | .error failure => return (.error failure, poller)
  | .ok false => return (.ok none, poller)
  | .ok true => return (← (poller.prune now).run, { poller with lastPruned := now })

/-- Asks for all pairs, saves what was fetched in the order that `arrange` gives it, and counts the
pairs saved. -/
def round (poller : Poller) (arrange : List Fetched → List Fetched) : Action Nat := do
  let saved ← poller.keepAll (arrange (← poller.fetchAll))
  Action.note .debug speaker ("Tick stored " ++ Number.Decimal.ofNat saved ++ " of " ++
    Number.Decimal.ofNat poller.pairs.length ++ " pairs")
  return saved

/-- One round over all pairs, and the pruning after it; counts the pairs saved. -/
def tick (poller : Poller) : StateM World (Except Failure Nat × Poller) := do
  match ← (poller.round id).run with
  | .error failure => return (.error failure, poller)
  | .ok saved =>
    let (pruned, poller) ← poller.pruneIfDue
    return (pruned.map fun _ => saved, poller)

/-! ## Running -/

/-- What came of some rounds. -/
structure Rounds where
  /-- The seconds that were waited after each round. -/
  waits : List Nat
  /-- What ended the rounds before their time. -/
  failure : Option Failure
  poller : Poller

/-- Some rounds with a wait until the next minute after each; the last wait takes no time. -/
def rounds : (count : Nat) → Poller → StateM World Rounds
  | 0, poller => return ⟨[], none, poller⟩
  | count + 1, poller => do
    match ← poller.tick with
    | (.error failure, poller) => return ⟨[], some failure, poller⟩
    | (.ok _, poller) =>
      let wait := (← get).clock.untilNextMinute
      if count = 0 then return ⟨[wait], none, poller⟩
      else
        match ← (Action.pass (wait * Time.microsPerSecond)).run with
        | .error failure => return ⟨[wait], some failure, poller⟩
        | .ok () =>
          let rest ← rounds count poller
          return { rest with waits := wait :: rest.waits }

/-- Says that polling starts. -/
def announce (poller : Poller) : Action Unit :=
  Action.note .info speaker
    ("Oracle daemon polling " ++ String.intercalate ", " (poller.pairs.map Pair.text))

/-- Says that polling ends. -/
def conclude : Action Unit := Action.note .info speaker "Oracle daemon stopped"

/-- Some rounds up to a wait that is not over. -/
def begin (poller : Poller) (count : Nat) : StateM World Rounds := do
  discard poller.announce.run
  rounds count poller

/-- Some rounds, after which polling ends. -/
def run (poller : Poller) (count : Nat) : StateM World Rounds := do
  let result ← poller.begin count
  if result.failure.isNone then discard conclude.run
  return result

end Poller

end RateLedger
