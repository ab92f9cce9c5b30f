import RateLedger.Journal
import RateLedger.Key
import RateLedger.Number.Shortest
import RateLedger.Record.Codec
import RateLedger.Table

/-!
# The store

The store keeps the committed table and the batches that were ever opened on it. A batch works on a
view of its own, which starts as the committed table and replaces it when the batch is committed.
One lock is held while a batch is open. Everything that reads or changes the store calls its
engine, and any call of the engine may fail: a fault plan says which calls do, by their number and
kind, and a trace tells which calls were made and which of them failed. A step that fails keeps what
it had changed before, unless the engine undoes with the failed call all that its batch has written.
Main statements: what each way to put steps together gives and leaves (`perform_bind`,
`perform_ensuring`, `perform_onFault`), and that a call of the engine fails exactly as planned
(`perform_engine`, `perform_engineFor`).
-/

namespace RateLedger

/-- The calls of the engine. -/
inductive EngineCall
  | openSession
  | read
  | write
  | commit
  | rollback
  | closeSession
  deriving DecidableEq, Repr

/-- A failure of an engine call. -/
structure Outage where
  cause : String
  /-- Whether the engine undoes with it all that was written in the session. -/
  undoes : Bool
  deriving DecidableEq, Repr

/-- One call of the engine that was made, with its failure if it failed. -/
structure EngineEvent where
  call : EngineCall
  outage : Option Outage
  deriving DecidableEq, Repr

/-- Whether the engine undid with the call what its session had written. -/
def EngineEvent.undoes (event : EngineEvent) : Bool := event.outage.any (·.undoes)

/-- Which engine calls fail, and how, by the number of calls before and by kind. -/
abbrev FaultPlan := Nat → EngineCall → Option Outage

/-- What the store was doing when its engine failed. -/
inductive Activity
  | read
  | batchRead
  | write
  | delete
  | commit
  | rollback
  deriving DecidableEq, Repr

/-- The name of an activity. -/
def Activity.name : Activity → String
  | .read => "read"
  | .batchRead => "batch read"
  | .write => "write"
  | .delete => "delete"
  | .commit => "commit"
  | .rollback => "rollback"

/-- Why the store could not do something. -/
inductive StoreFault
  /-- No identity row for a pair. -/
  | notFound (pairId : String)
  /-- The batch is committed or discarded. -/
  | batchClosed
  /-- Another batch is open. -/
  | batchOpen
  /-- The engine failed during an activity. -/
  | failed (activity : Activity) (cause : String)
  /-- A stored value is no record. -/
  | record (fault : Record.Fault)
  /-- The identity row of a pair holds the record of another one. -/
  | foreignIdentity (pairId other : String)
  /-- The key of a row is neither of the keys of its record. -/
  | foreignKey (key : Bytes) (pairId : String)
  /-- The engine failed outside of all activities. -/
  | engine (cause : String)
  /-- The lock is given back although nobody holds it. -/
  | lockFree
  /-- The time to wait for the lock is longer than a clock can count. -/
  | waitTooLong
  /-- A second does not fit into a key. -/
  | secondTooWide
  /-- Of two times to be compared only one knows its distance from UTC. -/
  | mixedClocks
  /-- A code has no form in UTF-8. -/
  | unencodable (flaw : Text.Flaw)
  /-- A store elsewhere gave up. -/
  | unavailable (message : String)
  deriving DecidableEq, Repr

namespace StoreFault

/-- Whether it is a failure of the store as such, which a batch or a poll can be given up for. -/
def isBackend : StoreFault → Bool
  | .engine _ | .lockFree | .waitTooLong | .secondTooWide | .mixedClocks | .unencodable _ => false
  | _ => true

/-- Whether stored bytes or their places are corrupted. -/
def isCorruption : StoreFault → Bool
  | .record _ | .foreignIdentity _ _ | .foreignKey _ _ => true
  | _ => false

/-- What is said about a fault. -/
def message : StoreFault → String
  | .notFound pairId => "Not found: Key Id: " ++ pairId
  | .batchClosed => "Batch already committed or discarded"
  | .batchOpen => "Another batch is already open on the oracle store"
  | .failed activity cause => "Oracle store " ++ activity.name ++ " failed: " ++ cause
  | .record fault => fault.message
  | .foreignIdentity pairId other =>
    "identity key of " ++ pairId ++ " holds a record for " ++ other
  | .foreignKey key pairId =>
    "key " ++ Text.Quoted.ofBytes key ++ " does not match stored record for " ++ pairId
  | .engine cause => cause
  | .lockFree => "release unlocked lock"
  | .waitTooLong => "timeout value is too large"
  | .secondTooWide => "second out of range"
  | .mixedClocks => "times with and without a distance from UTC"
  | .unencodable flaw => flaw.message
  | .unavailable message => message

end StoreFault

/-- A batch: its view of the table, and whether it is still open. -/
structure Batch where
  view : Table
  isOpen : Bool

/-- The state of a store. -/
structure Store where
  committed : Table
  locked : Bool
  /-- All batches, the oldest first; a batch is known by its position. -/
  batches : List Batch
  /-- The calls of the engine so far, the last one first. -/
  trace : List EngineEvent
  plan : FaultPlan
  journal : Journal

/-- A step on the store. -/
abbrev StoreM := ExceptT StoreFault (StateM Store)

namespace Store

/-- A store without rows whose engine does not fail. -/
def fresh : Store := ⟨.empty, false, [], [], fun _ _ => none, []⟩

/-- What a step on a store gives, and the store after it. -/
def perform (s : Store) (step : StoreM α) : Except StoreFault α × Store := step.run.run s

@[simp] theorem perform_pure (s : Store) (a : α) : s.perform (pure a) = (.ok a, s) := rfl

@[simp] theorem perform_throw (s : Store) (fault : StoreFault) :
    s.perform (throw fault : StoreM α) = (.error fault, s) := rfl

@[simp] theorem perform_get (s : Store) : s.perform get = (.ok s, s) := rfl

@[simp] theorem perform_set (s t : Store) : s.perform (set t) = (.ok ⟨⟩, t) := rfl

@[simp] theorem perform_modify (s : Store) (f : Store → Store) :
    s.perform (modify f) = (.ok ⟨⟩, f s) := rfl

theorem perform_bind (s : Store) (step : StoreM α) (next : α → StoreM β) :
    s.perform (step >>= next) =
      match s.perform step with
      | (.ok a, t) => t.perform (next a)
      | (.error fault, t) => (.error fault, t) := by
  show (match step.run.run s with | (r, t) => (ExceptT.bindCont next r).run t) = _
  unfold perform
  rcases step.run.run s with ⟨_ | _, _⟩ <;> rfl

/-- The store with one more line in its journal. -/
def withNote (s : Store) (level : Level) (speaker : String) (text : Text.Wide) : Store :=
  { s with journal := ⟨level, speaker, text⟩ :: s.journal }

/-- Puts a line into the journal. -/
def note (level : Level) (speaker : String) (text : Text.Wide) : StoreM Unit :=
  modify fun s => s.withNote level speaker text

/-- Calls the engine; a failure becomes the fault that `wrap` makes of its cause. -/
def engine (call : EngineCall) (wrap : String → StoreFault) : StoreM Unit := do
  let s ← get
  let outage := s.plan s.trace.length call
  set { s with trace := ⟨call, outage⟩ :: s.trace }
  match outage with
  | some outage => throw (wrap outage.cause)
  | none => return

theorem perform_engine (s : Store) (call : EngineCall) (wrap : String → StoreFault) :
    s.perform (engine call wrap) =
      (match s.plan s.trace.length call with
        | some outage => .error (wrap outage.cause)
        | none => .ok ⟨⟩,
        { s with trace := ⟨call, s.plan s.trace.length call⟩ :: s.trace }) := by
  unfold engine
  cases h : s.plan s.trace.length call <;> simp [perform_bind, h]

/-- Runs `body`, then `cleanup` in any case; a fault of the cleanup replaces the result. -/
def ensuring (body : StoreM α) (cleanup : StoreM Unit) : StoreM α := fun s =>
  let (result, t) := s.perform body
  let (ended, u) := t.perform cleanup
  (ended.bind fun _ => result, u)

/-- Runs `handle` on a fault of `body`, then fails with the fault, unless `handle` itself fails. -/
def onFault (body : StoreM α) (handle : StoreFault → StoreM Unit) : StoreM α := fun s =>
  match s.perform body with
  | (.ok value, t) => (.ok value, t)
  | (.error fault, t) =>
    let (ended, u) := t.perform (handle fault)
    (ended.bind fun _ => .error fault, u)

theorem perform_ensuring (s : Store) (body : StoreM α) (cleanup : StoreM Unit) :
    s.perform (ensuring body cleanup) =
      (((s.perform body).2.perform cleanup).1.bind fun _ => (s.perform body).1,
        ((s.perform body).2.perform cleanup).2) := rfl

theorem perform_onFault (s : Store) (body : StoreM α) (handle : StoreFault → StoreM Unit) :
    s.perform (onFault body handle) =
      match s.perform body with
      | (.ok value, t) => (.ok value, t)
      | (.error fault, t) =>
        ((t.perform (handle fault)).1.bind fun _ => .error fault,
          (t.perform (handle fault)).2) := by
  show onFault body handle s = _
  unfold onFault
  rcases s.perform body with ⟨_ | _, _⟩ <;> rfl

/-! ## Batches -/

/-- Whether a batch is open. -/
def isOpen (s : Store) (b : Nat) : Bool := (s.batches[b]?.map (·.isOpen)).getD false

/-- What a batch sees. -/
def viewOf (s : Store) (b : Nat) : Table := (s.batches[b]?.map (·.view)).getD .empty

/-- The store in which a batch sees another table. -/
def withView (s : Store) (b : Nat) (view : Table) : Store :=
  { s with batches := s.batches.modify b fun batch => { batch with view } }

/-- The store after a call of the engine for a batch, of which it may have undone the writes: then
the batch sees the committed table again. -/
def settled (s : Store) (b : Nat) (outage : Option Outage) : Store :=
  if outage.any (·.undoes) then s.withView b s.committed else s

/-- Calls the engine for a batch. -/
def engineFor (b : Nat) (call : EngineCall) (wrap : String → StoreFault) : StoreM Unit := do
  let s ← get
  let outage := s.plan s.trace.length call
  onFault (engine call wrap) fun _ => modify fun t => t.settled b outage

theorem perform_engineFor (s : Store) (b : Nat) (call : EngineCall) (wrap : String → StoreFault) :
    s.perform (engineFor b call wrap) =
      ((s.perform (engine call wrap)).1,
        (s.perform (engine call wrap)).2.settled b (s.plan s.trace.length call)) := by
  unfold engineFor
  rw [perform_bind, perform_get]
  dsimp only
  rw [perform_onFault, perform_engine]
  cases s.plan s.trace.length call <;> rfl

/-- Refuses a batch that is not open. -/
def checkOpen (b : Nat) : StoreM Unit := do
  unless (← get).isOpen b do throw .batchClosed

/-- Whether a time to wait, in seconds, is longer than a clock of nanoseconds can count: its
nanoseconds round to `2 ^ 63` or more. -/
def waitTooLong (wait : Binary64) : Bool :=
  let limit := (Number.twoTo 63 - 512) * Binary64.one
  wait.isPositive && (!wait.isFinite || limit ≤ wait.units * 1000000000)

/-- Takes the lock. There is nobody else to give it back, so waiting is in vain. -/
def acquire (wait : Binary64) : StoreM Unit := do
  if waitTooLong wait then throw .waitTooLong
  if (← get).locked then throw .batchOpen
  modify fun s => { s with locked := true }

/-- Gives the lock back, which has to be held. -/
def release : StoreM Unit := do
  unless (← get).locked do throw .lockFree
  modify fun s => { s with locked := false }

/-- Opens a batch on the committed table. -/
def openBatch (wait : Binary64) : StoreM Nat := do
  acquire wait
  onFault (engine .openSession .engine) fun _ => release
  modifyGet fun s => (s.batches.length, { s with batches := s.batches ++ [⟨s.committed, true⟩] })

/-- Writes a row in a batch. -/
def put (b : Nat) (key value : Bytes) : StoreM Unit := do
  engineFor b .write (.failed .write)
  modify fun s => s.withView b ((s.viewOf b).insert key value)

/-- Removes a row in a batch. -/
def remove (b : Nat) (key : Bytes) : StoreM Unit := do
  engineFor b .write (.failed .delete)
  modify fun s => s.withView b ((s.viewOf b).erase key)

/-- The store in which a batch is not open. -/
def withClosed (s : Store) (b : Nat) : Store :=
  { s with batches := s.batches.modify b fun batch => { batch with isOpen := false } }

/-- Ends a batch, and gives the lock back whatever the engine does. -/
def close (b : Nat) : StoreM Unit := do
  modify fun s => s.withClosed b
  ensuring (engine .closeSession .engine) release

/-- Drops the changes of a batch in the engine. -/
def rollback : StoreM Unit := engine .rollback (.failed .rollback)

/-- Makes the view of a batch the committed table. -/
def commitView (b : Nat) : StoreM Unit := do
  engine .commit (.failed .commit)
  modify fun s => { s with committed := s.viewOf b }

/-- Commits a batch and ends it. -/
def commit (b : Nat) : StoreM Unit := do
  checkOpen b
  ensuring
    (onFault (commitView b) fun fault => do
      if fault.isBackend then
        note .warning "db.store" "Batch commit failed, rolling back"
        rollback)
    (close b)

/-- Drops the changes of a batch and ends it. -/
def discard (b : Nat) : StoreM Unit := do
  checkOpen b
  ensuring rollback (close b)

/-- Ends a batch that was left open. -/
def leave (b : Nat) : StoreM Unit := do
  if (← get).isOpen b then discard b

/-- Runs `body` on a new batch, which is ended afterwards in any case. -/
def withBatch (wait : Binary64) (body : Nat → StoreM α) : StoreM α := do
  let b ← openBatch wait
  ensuring (body b) (leave b)

end Store

end RateLedger
