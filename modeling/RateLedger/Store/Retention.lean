import RateLedger.Store.History
import RateLedger.Time.Iso

/-!
# Retention

Pruning deletes every observation older than a cutoff in one batch, so that either all of them go or
none. The cutoff has to know its distance from UTC as soon as there is an observation to compare it
with.
-/

namespace RateLedger.Store

/-- The observations that a batch sees before a cutoff, in the order of their keys. -/
def olderThan (b : Nat) (cutoff : Time.DateTime) : StoreM (List Observation) := do
  let all := Cursor.all (.batch b)
  if cutoff.offset.isSome then
    return (← all.toList).filter fun x => x.time.isBefore? cutoff == some true
  else
    match (← ExceptT.mk (Except.ok <$> all.pull (some 1))).ending with
    | .full => throw .mixedClocks
    | .exhausted => return []
    | .failed fault => throw fault

/-- Deletes the observations before a cutoff and says how many there were. -/
def prune (cutoff : Time.DateTime) (wait : Binary64) : StoreM Nat := do
  let stale ← withBatch wait fun b => do
    let stale ← olderThan b cutoff
    stale.forM fun x => delete b x.pairId x.seconds
    commit b
    return stale
  note .debug "services.compaction" ("Compaction before " ++ Time.Iso.ofDateTime cutoff ++
    " cleaned " ++ Number.Decimal.ofNat stale.length ++ " items")
  return stale.length

end RateLedger.Store
