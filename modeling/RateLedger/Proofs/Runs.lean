import RateLedger.Store.History

/-!
# Runs of a store

A run is a list of calls, on the store or on any batch that was ever opened on it, in any order:
also the calls that are refused, because another batch is open or because the batch has ended, are
part of a run. What holds after no calls and is kept by every call of a run holds after the run.
-/

namespace RateLedger

/-- A change to what a batch holds. -/
inductive Edit
  | save (x : Observation)
  | delete (pairId : String) (seconds : Int)
  deriving DecidableEq

/-- A call on a store or on one of its batches. -/
inductive Call
  | openBatch (wait : Binary64)
  | edit (b : Nat) (change : Edit)
  | commit (b : Nat)
  | discard (b : Nat)
  deriving DecidableEq

/-- The step that makes a change in a batch. -/
def Edit.step (b : Nat) : Edit → StoreM Unit
  | .save x => Store.save b x
  | .delete pairId seconds => Store.delete b pairId seconds

/-- The step of a call. -/
def Call.step : Call → StoreM Unit
  | .openBatch wait => do let _ ← Store.openBatch wait
  | .edit b change => change.step b
  | .commit b => Store.commit b
  | .discard b => Store.discard b

namespace Store

/-- The store after some calls, each of which may be refused or fail. -/
def after (s : Store) (calls : List Call) : Store :=
  calls.foldl (fun s call => (s.perform call.step).2) s

theorem after_cons (s : Store) (call : Call) (calls : List Call) :
    s.after (call :: calls) = (s.perform call.step).2.after calls := rfl

/-- What every call of a run keeps is kept by the run. -/
theorem after_induction {I : Store → Prop} {calls : List Call} {s : Store} (hs : I s)
    (h : ∀ call ∈ calls, ∀ t, I t → I (t.perform call.step).2) : I (s.after calls) := by
  induction calls generalizing s with
  | nil => exact hs
  | cons call rest ih =>
    rw [after_cons]
    apply ih (h call List.mem_cons_self s hs)
    intro other hother
    exact h other (List.mem_cons_of_mem _ hother)

/-! ## Observations of runs -/

/-- An observation of a currency that is worth a euro. -/
def parity (quote : String) (seconds : Nat) (hquote : quote ≠ "" ∧ "EUR" ≠ quote)
    (hseconds : seconds ≤ Time.maxSecond) : Observation :=
  ⟨"EUR", quote, ⟨4607182418800017408⟩, seconds, by decide, hquote.1, hquote.2, by decide, hseconds⟩

def early : Observation := parity "USD" 2 (by decide) (by decide)
def late : Observation := parity "USD" 5 (by decide) (by decide)
def longer : Observation := parity "USDT" 3 (by decide) (by decide)

/-- An observation at a second whose last four bytes are letters. -/
def lettered : Observation := parity "USD" 1094795585 (by decide) (by decide)

/-- An observation whose pair has the key of `lettered` for its identity key. -/
def foreign : Observation := parity "USD\x00\x00\x00\x00AAAA" 0 (by decide) (by decide)

end Store

end RateLedger
