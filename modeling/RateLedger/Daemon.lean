import RateLedger.Poller

/-!
# Polling in the background

A daemon is a poller with at most one worker, which polls until it is stopped or breaks. Whatever
the worker does up to a wait that is not over has happened when the daemon is started.
-/

namespace RateLedger

/-- The worker of a daemon. -/
inductive Worker
  | none
  /-- It waits for the next minute. -/
  | waiting
  /-- It ended with a failure. -/
  | broken
  deriving DecidableEq, Repr

/-- A poller that can run in the background. -/
structure Daemon where
  poller : Poller
  worker : Worker

namespace Daemon

/-- The name of the worker. -/
def workerName : String := "oracle-daemon"

/-- Starts a worker, which runs up to the wait after its last round; one worker is enough. -/
def start (daemon : Daemon) (count : Nat) : StateM World (Except Failure (List Nat) × Daemon) := do
  if daemon.worker = .waiting then
    return (.error (.alreadyRunning "daemon already running"), daemon)
  else
    let result ← daemon.poller.begin count
    return (.ok result.waits,
      ⟨result.poller, if result.failure.isSome then .broken else .waiting⟩)

/-- Stops the worker; says whether there was one. -/
def stop (daemon : Daemon) : StateM World (Bool × Daemon) := do
  if daemon.worker = .waiting then discard Poller.conclude.run
  return (daemon.worker ≠ .none, { daemon with worker := .none })

end Daemon

end RateLedger
