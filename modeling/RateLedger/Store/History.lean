import RateLedger.Store.Scan

/-!
# The history in the store

Every observation has a row under its own key, and its pair has one more, under the identity key,
that repeats the newest observation of the pair. Saving and deleting keep the identity row up to
date. Reading a history gives the observations of a range in the order of their keys: rows under
their own key are given out, identity rows are passed over, and any other row is a corruption.
-/

namespace RateLedger

/-- The observation that a value records. -/
def readRecord (value : Bytes) : Except StoreFault Observation :=
  match Record.decode value with
  | .ok x => .ok x
  | .error fault => .error (.record fault)

/-- The observation of a row under its own key, or nothing for an identity row. -/
def classify (row : Row) : Except StoreFault (Option Observation) :=
  match readRecord row.2 with
  | .error fault => .error fault
  | .ok x =>
    if row.1 = Key.ofObservation x then .ok (some x)
    else if row.1 = Key.ofPair x then .ok none
    else .error (.foreignKey row.1 x.pairId)

/-- A reader of observations at some place in a history. -/
structure Cursor where
  view : View
  scan : Scan
  /-- Whether it came to the end or failed. -/
  finished : Bool

/-- How a request for observations ended. -/
inductive Ending
  /-- With as many as were wanted. -/
  | full
  | exhausted
  | failed (fault : StoreFault)
  deriving DecidableEq, Repr

/-- What came of a request for observations. -/
structure Pull where
  items : List Observation
  ending : Ending
  cursor : Cursor

namespace Cursor

/-- A reader of the observations whose keys start with `pre`. -/
def ofPrefix (view : View) (pre : Bytes) : Cursor := ⟨view, .ofPrefix pre, false⟩

/-- A reader of all observations. -/
def all (view : View) : Cursor := ofPrefix view Key.root

/-- A reader of the observations whose pair identifier starts with a text. -/
def ofText (view : View) (text : String) : Cursor := ofPrefix view (Key.identity text)

/-- Reads on until there are `wanted` observations, or to the end; `found` holds those before,
reversed. -/
def pullFrom (wanted : Option Nat) :
    (fuel : Nat) → Cursor → (found : List Observation) → StateM Store Pull
  | 0, cursor, found => return ⟨found.reverse, .exhausted, { cursor with finished := true }⟩
  | fuel + 1, cursor, found => do
    if wanted = some found.length then return ⟨found.reverse, .full, cursor⟩
    else
      match ← (cursor.scan.next? cursor.view).run with
      | .error fault =>
        return ⟨found.reverse, .failed fault, { cursor with finished := true }⟩
      | .ok none => return ⟨found.reverse, .exhausted, { cursor with finished := true }⟩
      | .ok (some (row, scan)) =>
        match classify row with
        | .error fault =>
          return ⟨found.reverse, .failed fault, { cursor with scan, finished := true }⟩
        | .ok none => pullFrom wanted fuel { cursor with scan } found
        | .ok (some x) => pullFrom wanted fuel { cursor with scan } (x :: found)

/-- The next observations, at most `wanted` or all. A finished reader has none. -/
def pull (cursor : Cursor) (wanted : Option Nat) : StateM Store Pull := do
  if cursor.finished then
    return ⟨[], if wanted = some 0 then .full else .exhausted, cursor⟩
  else
    let table := (← get).table cursor.view
    pullFrom wanted (cursor.scan.steps table + 1) cursor []

/-- All observations that a reader still has. -/
def toList (cursor : Cursor) : StoreM (List Observation) := do
  let result ← ExceptT.mk (Except.ok <$> cursor.pull none)
  match result.ending with
  | .failed fault => throw fault
  | _ => return result.items

end Cursor

namespace Store

/-- The newest observation of a pair, from its identity row. -/
def newest (view : View) (pairId : String) : StoreM Observation := do
  if let .batch b := view then checkOpen b
  match ← readRow view (Key.identity pairId) with
  | none => throw (.notFound pairId)
  | some value =>
    let x ← ExceptT.mk (pure (readRecord value))
    if x.pairId = pairId then return x else throw (.foreignIdentity pairId x.pairId)

/-- Takes the value of a row if it is under a key of the pair at its own second. -/
def keepNewest (pairId : String) (found : Option Bytes) (row : Row) :
    Except StoreFault (Option Bytes) :=
  if row.1.length ≠ (Key.identity pairId).length + 8 then .ok found
  else match readRecord row.2 with
    | .error fault => .error fault
    | .ok x =>
      if x.pairId = pairId ∧ row.1 = Key.timed pairId x.seconds then .ok (some row.2)
      else .ok found

/-- The record of the newest observation of a pair, from the rows under their own keys. -/
def newestRecord (view : View) (pairId : String) : StoreM (Option Bytes) :=
  (Scan.ofPrefix (Key.identity pairId)).fold view (keepNewest pairId) none

/-- Saves an observation in a batch, and makes it the newest unless a newer one is there. -/
def save (b : Nat) (x : Observation) : StoreM Unit := do
  checkOpen b
  put b (Key.ofObservation x) x.toRecord
  match ← readRow (.batch b) (Key.ofPair x) with
  | none => put b (Key.ofPair x) x.toRecord
  | some value =>
    let current ← ExceptT.mk (pure (readRecord value))
    if current.seconds ≤ x.seconds then put b (Key.ofPair x) x.toRecord

/-- Saves a sighting in a batch as the observation that it is stored as. -/
def saveSighting (b : Nat) (y : Sighting) : StoreM Unit :=
  match y.stored with
  | .ok x => save b x
  | .error flaw => do
    checkOpen b
    throw (.unencodable flaw)

/-- Deletes the observation of a pair at a second in a batch, and makes the newest of the others the
newest of the pair if it was the newest. -/
def delete (b : Nat) (pairId : String) (seconds : Int) : StoreM Unit := do
  checkOpen b
  unless Key.fits seconds do throw .secondTooWide
  remove b (Key.timed pairId seconds)
  match ← readRow (.batch b) (Key.identity pairId) with
  | none => return
  | some value =>
    let current ← ExceptT.mk (pure (readRecord value))
    if (current.seconds : Int) = seconds then
      match ← newestRecord (.batch b) pairId with
      | none => remove b (Key.identity pairId)
      | some record => put b (Key.identity pairId) record

end Store

end RateLedger
