import RateLedger.World

/-!
# The rate service

The service answers from the history: the newest observation of a pair, the latest observations, and
the newest ones of a list of pairs. It also fetches a rate on demand, which is saved before it is
given out, and prunes the history on demand. Lists stand with the latest observation first, and
observations of the same second in the order they were found. Main statement: a list with the
latest first holds what was found (`latestFirst_perm`), by falling seconds (`latestFirst_pairwise`).
-/

namespace RateLedger

/-- The settings of the service. -/
structure Service where
  /-- The pairs whose newest observations are given out together. -/
  aggregated : List Pair
  /-- How many seconds to wait for the lock. -/
  wait : Binary64

/-- Observations with the latest first, those of a second in their order. -/
def latestFirst (found : List Observation) : List Observation :=
  found.mergeSort fun a b => b.seconds ≤ a.seconds

theorem latestFirst_perm (found : List Observation) : (latestFirst found).Perm found :=
  List.mergeSort_perm found _

theorem falling_trans (a b c : Observation) (hab : decide (b.seconds ≤ a.seconds) = true)
    (hbc : decide (c.seconds ≤ b.seconds) = true) : decide (c.seconds ≤ a.seconds) = true := by
  simp only [decide_eq_true_eq] at *
  omega

theorem falling_total (a b : Observation) :
    (decide (b.seconds ≤ a.seconds) || decide (a.seconds ≤ b.seconds)) = true := by
  simp only [Bool.or_eq_true, decide_eq_true_eq]
  omega

theorem latestFirst_pairwise (found : List Observation) :
    (latestFirst found).Pairwise fun a b => b.seconds ≤ a.seconds := by
  have h := List.pairwise_mergeSort falling_trans falling_total found
  exact h.imp fun hab => by simpa using hab

/-- Saves a sighting in a batch of its own. -/
def Store.keep (y : Sighting) (wait : Binary64) : StoreM Unit :=
  withBatch wait fun b => do
    saveSighting b y
    commit b

namespace Service

/-- The newest observation of a pair. -/
def newest (pairId : String) : Action Observation :=
  .onStore (Store.newest .committed pairId)

/-- Asks the source for a rate, saves it and gives it out. -/
def fetch (service : Service) (pair : Pair) : Action Sighting := do
  let y ← Action.ask pair
  Action.onStore (Store.keep y service.wait)
  return y

/-- The latest observations whose pair identifier starts with a text, at most `limit`. -/
def recent (text : String) (limit : Int) : Action (List Observation) := do
  if limit < 0 then throw (.refused "limit must be >= 0")
  let cursor := if text = "" then Cursor.all .committed else Cursor.ofText .committed text
  return (latestFirst (← Action.onStore cursor.toList)).take limit.toNat

/-- The newest observations of the pairs that are given out together. -/
def newestOfAll (service : Service) : Action (List Observation) :=
  latestFirst <$> service.aggregated.mapM fun pair => newest pair.id

/-- Microseconds in a minute. -/
def microsPerMinute : Int := 60 * Time.microsPerSecond

/-- Deletes the observations older than some minutes and says how many there were. -/
def prune (service : Service) (minutes : Int) : Action Nat := do
  if minutes < 0 then throw (.refused "minutes must be >= 0")
  let age ← Action.orOutOfRange (Time.span? (minutes * microsPerMinute))
  let cutoff ← Action.orOutOfRange ((← Action.now).minus? age)
  let count ← Action.onStore (Store.prune cutoff service.wait)
  Action.note .info "services.oracle_service" ("On-demand compaction older than " ++
    Number.Decimal.ofInt minutes ++ " minutes cleaned " ++ Number.Decimal.ofNat count ++ " items")
  return count

end Service

end RateLedger
