import RateLedger.Proofs.Batches
import RateLedger.Proofs.Invariants
import RateLedger.Proofs.Readers

/-!
# Steps that only read

Reading calls the engine, and nothing else in a store changes by it, unless a failed call undoes
what the batch that is read has written; its faults are all faults of the store as such. So a
property of stores that outlives the calls made for reading a view, like the state of the lock or
the number of writes that were made, is kept by whatever reads the view: a row, a scan, a reader of
observations. This is shown once, for any such property (`Untouched`).
-/

namespace RateLedger

/-- Whether a call of the engine is made for reading. -/
def EngineCall.isReading : EngineCall → Bool
  | .openSession | .read | .closeSession => true
  | .write | .commit | .rollback => false

/-- What is read is neither written nor committed. -/
theorem EngineCall.ne_of_isReading {call : EngineCall} (h : call.isReading = true) :
    call ≠ .write ∧ call ≠ .commit := by
  constructor <;>
  · rintro rfl
    cases h

theorem readRecord_fault {value : Bytes} {fault : StoreFault}
    (h : readRecord value = .error fault) : fault.isBackend = true := by
  unfold readRecord at h
  split at h
  · cases h
  · cases h
    rfl

theorem classify_fault {row : Row} {fault : StoreFault} (h : classify row = .error fault) :
    fault.isBackend = true := by
  unfold classify at h
  split at h
  · rename_i other hread
    cases h
    exact readRecord_fault hread
  · split at h
    · cases h
    · split at h
      · cases h
      · cases h
        rfl

theorem keepNewest_fault {pairId : String} {found : Option Bytes} {row : Row} {fault : StoreFault}
    (h : Store.keepNewest pairId found row = .error fault) : fault.isBackend = true := by
  unfold Store.keepNewest at h
  split at h
  · cases h
  · split at h
    · rename_i other hread
      cases h
      exact readRecord_fault hread
    · split at h <;> cases h

namespace Store

/-- Reading a view does not touch a property of stores, and fails with an allowed kind of faults. -/
structure Untouched (view : View) (I : Store → Prop) (F : StoreFault → Prop) : Prop where
  call : ∀ s call, EngineCall.isReading call = true → I s → I (s.asked view call)
  fault : ∀ fault, StoreFault.isBackend fault = true → F fault

namespace Untouched

variable {I : Store → Prop} {F : StoreFault → Prop} {view : View}

theorem answer_fault {s : Store} {call : EngineCall} {activity : Activity} {fault : StoreFault}
    (h : s.answer call (.failed activity) = .error fault) : fault.isBackend = true := by
  unfold answer at h
  split at h
  · cases h
    rfl
  · cases h

theorem engine (h : Untouched .committed I F) {call : EngineCall} (hcall : call.isReading = true)
    (activity : Activity) : Keeps I F (engine call (.failed activity)) := by
  intro s hs
  unfold LeadsTo
  rw [perform_call]
  exact ⟨h.call s call hcall hs, fun fault hfault => h.fault fault (answer_fault hfault)⟩

theorem engineFor {b : Nat} (h : Untouched (.batch b) I F) {call : EngineCall}
    (hcall : call.isReading = true) (activity : Activity) :
    Keeps I F (engineFor b call (.failed activity)) := by
  intro s hs
  unfold LeadsTo
  rw [perform_callFor]
  exact ⟨h.call s call hcall hs, fun fault hfault => h.fault fault (answer_fault hfault)⟩

theorem ofExcept (h : Untouched view I F) {value : Except StoreFault α}
    (hvalue : ∀ fault, value = .error fault → fault.isBackend = true) :
    Keeps I F (ExceptT.mk (pure value)) :=
  fun _ hs => ⟨hs, fun fault hfault => h.fault fault (hvalue fault hfault)⟩

theorem checkOpen (h : Untouched view I F) (b : Nat) : Keeps I F (checkOpen b) := by
  refine Keeps.get_bind fun s => ?_
  cases s.isOpen b with
  | true => exact Keeps.pure _
  | false => exact Keeps.throw (h.fault _ rfl)

theorem query (h : Untouched view I F) (ask : Table → α) : Keeps I F (query view ask) := by
  have hask : Keeps I F (do return ask ((← get).table view) : StoreM α) :=
    Keeps.get_bind fun _ => Keeps.pure _
  cases view with
  | committed =>
    exact Keeps.bind (h.engine rfl .read) fun _ =>
      Keeps.ensuring (Keeps.bind (h.engine rfl .read) fun _ => hask) (h.engine rfl .read)
  | batch b =>
    exact Keeps.bind (h.checkOpen b) fun _ =>
      Keeps.bind (h.engineFor rfl .batchRead) fun _ => hask

theorem readRow (h : Untouched view I F) (key : Bytes) : Keeps I F (readRow view key) :=
  h.query _

theorem next? (h : Untouched view I F) (scan : Scan) : Keeps I F (scan.next? view) := by
  unfold Scan.next?
  cases scan.waiting.isEmpty with
  | false => exact Keeps.pure _
  | true =>
    cases scan.ended with
    | true => exact Keeps.pure _
    | false => exact Keeps.bind (h.query _) fun _ => Keeps.pure _

theorem foldFrom (h : Untouched view I F) {step : α → Row → Except StoreFault α}
    (hstep : ∀ acc row fault, step acc row = .error fault → fault.isBackend = true) (fuel : Nat)
    (scan : Scan) (acc : α) : Keeps I F (Scan.foldFrom view step fuel scan acc) := by
  induction fuel generalizing scan acc with
  | zero => exact Keeps.pure acc
  | succ fuel ih =>
    unfold Scan.foldFrom
    refine Keeps.bind (h.next? scan) fun found => ?_
    cases found with
    | none => exact Keeps.pure acc
    | some found => exact Keeps.bind (h.ofExcept (hstep acc found.1)) fun acc => ih found.2 acc

theorem newestRecord (h : Untouched view I F) (pairId : String) :
    Keeps I F (newestRecord view pairId) :=
  Keeps.get_bind fun _ => h.foldFrom (fun _ _ _ => keepNewest_fault) _ _ _

theorem newest (h : Untouched view I F) (pairId : String) :
    Keeps I F (newest view pairId) := by
  unfold Store.newest
  cases view
  case' batch b => refine Keeps.bind (h.checkOpen b) fun _ => ?_
  all_goals
    refine Keeps.bind (h.readRow _) fun found => ?_
    cases found with
    | none => exact Keeps.throw (h.fault _ rfl)
    | some value =>
      refine Keeps.bind (h.ofExcept fun _ => readRecord_fault) fun x => ?_
      split
      · exact Keeps.pure x
      · exact Keeps.throw (h.fault _ rfl)

theorem pullFrom (h : Untouched view I F) (wanted : Option Nat) (fuel : Nat) (cursor : Cursor)
    (hview : cursor.view = view) (found : List Observation) :
    Keeps I F (Cursor.settled (cursor.pullFrom wanted fuel found)) := by
  induction fuel generalizing cursor found with
  | zero => exact Keeps.pure _
  | succ fuel ih =>
    by_cases hfull : wanted = some found.length
    · rw [Cursor.settled_pullFrom_of_eq hfull]
      exact Keeps.pure _
    · rw [Cursor.settled_pullFrom_of_ne hfull, hview]
      refine Keeps.bind (h.next? _) fun out => ?_
      cases out with
      | none => exact Keeps.pure _
      | some out =>
        refine Keeps.bind (h.ofExcept fun _ => classify_fault) fun x => ?_
        cases x with
        | none => exact ih _ rfl found
        | some x => exact ih _ rfl (x :: found)

theorem pull (h : Untouched view I F) {cursor : Cursor} (hview : cursor.view = view)
    (wanted : Option Nat) : Keeps I F (Cursor.settled (cursor.pull wanted)) := by
  cases hfinished : cursor.finished with
  | true =>
    rw [Cursor.settled_pull_of_finished hfinished]
    exact h.ofExcept nofun
  | false =>
    rw [Cursor.settled_pull_of_unfinished hfinished]
    exact Keeps.get_bind fun _ => h.pullFrom wanted _ cursor hview []

end Untouched

/-- A store comes from another one by calls made for reading a view. -/
def Consulted (s : Store) (view : View) (t : Store) : Prop :=
  ∃ events, (∀ event ∈ events, event.call.isReading = true) ∧
    t = (s.undoneBy events view).withTrace (events ++ s.trace)

theorem Consulted.refl (s : Store) (view : View) : s.Consulted view s := by
  refine ⟨[], nofun, ?_⟩
  cases view <;> rfl

/-- Reading leaves everything else of a store as it was. -/
theorem untouched_consulted (s : Store) (view : View) :
    Untouched view (s.Consulted view) fun _ => True where
  call t call hcall ht := by
    obtain ⟨events, hevents, rfl⟩ := ht
    refine ⟨⟨call, _⟩ :: events, fun event hevent => ?_, asked_undoneBy s view call events⟩
    rcases List.mem_cons.1 hevent with rfl | hmem
    · exact hcall
    · exact hevents event hmem
  fault _ _ := trivial

end Store

end RateLedger
