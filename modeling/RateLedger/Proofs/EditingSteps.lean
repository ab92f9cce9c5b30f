import RateLedger.Proofs.ReadingSteps
import RateLedger.Proofs.Runs

/-!
# Steps that edit a batch

Besides reading, an edit calls the engine to write, and changes what its batch sees; nothing else in
a store changes by it, and its faults are faults of the store as such. So a property of stores that
neither the calls nor the views of batches matter to, like the committed table, the lock or the
number of commits, is kept by whatever edits a batch (`Unmoved`).
-/

namespace RateLedger.Store

/-- Neither reading nor editing moves a property of stores, and both fail with an allowed kind of
faults. -/
structure Unmoved (I : Store → Prop) (F : StoreFault → Prop) : Prop where
  call : ∀ s call, EngineCall.isReading call = true → I s → I (s.called call)
  fault : ∀ fault, StoreFault.isBackend fault = true → F fault
  write : ∀ s, I s → I (s.called .write)
  withView : ∀ s b table, I s → I (s.withView b table)

namespace Unmoved

variable {I : Store → Prop} {F : StoreFault → Prop}

theorem settled (h : Unmoved I F) {s : Store} (hs : I s) (b : Nat) (outage : Option Outage) :
    I (s.settled b outage) := by
  unfold Store.settled
  split
  · exact h.withView s b _ hs
  · exact hs

theorem untouched (h : Unmoved I F) (view : View) : Untouched view I F where
  call s call hcall hs := by
    cases view with
    | committed => exact h.call s call hcall hs
    | batch b => exact h.settled (h.call s call hcall hs) b _
  fault := h.fault

theorem callWrite (h : Unmoved I F) (b : Nat) (activity : Activity) :
    Keeps I F (engineFor b .write (.failed activity)) := by
  intro s hs
  unfold LeadsTo
  rw [perform_callFor]
  exact ⟨h.settled (h.write s hs) b _,
    fun fault hfault => h.fault fault (Untouched.answer_fault hfault)⟩

theorem put (h : Unmoved I F) (b : Nat) (key value : Bytes) : Keeps I F (put b key value) :=
  Keeps.bind (h.callWrite b .write) fun _ => Keeps.modify fun s hs => h.withView s b _ hs

theorem remove (h : Unmoved I F) (b : Nat) (key : Bytes) : Keeps I F (remove b key) :=
  Keeps.bind (h.callWrite b .delete) fun _ => Keeps.modify fun s hs => h.withView s b _ hs

theorem save (h : Unmoved I F) (b : Nat) (x : Observation) : Keeps I F (save b x) := by
  have hview := h.untouched (.batch b)
  refine Keeps.bind (hview.checkOpen b) fun _ => Keeps.bind (h.put b _ _) fun _ =>
    Keeps.bind (hview.readRow _) fun found => ?_
  cases found with
  | none => exact h.put b _ _
  | some value =>
    refine Keeps.bind (hview.ofExcept fun _ => readRecord_fault) fun current => ?_
    split
    · exact h.put b _ _
    · exact Keeps.pure _

/-- A deletion may also be refused for a second that no key has room for. -/
theorem delete (h : Unmoved I F) (b : Nat) (pairId : String) {seconds : Int}
    (hwide : Key.fits seconds = false → F .secondTooWide) :
    Keeps I F (delete b pairId seconds) := by
  have hview := h.untouched (.batch b)
  refine Keeps.bind (hview.checkOpen b) fun _ => ?_
  cases hfits : Key.fits seconds with
  | false => exact Keeps.throw_bind (hwide hfits)
  | true =>
    refine Keeps.bind (h.remove b _) fun _ => Keeps.bind (hview.readRow _) fun found => ?_
    cases found with
    | none => exact Keeps.pure _
    | some value =>
      refine Keeps.bind (hview.ofExcept fun _ => readRecord_fault) fun current => ?_
      split
      · refine Keeps.bind (hview.newestRecord _) fun record => ?_
        cases record with
        | none => exact h.remove b _
        | some record => exact h.put b _ _
      · exact Keeps.pure _

end Unmoved

end RateLedger.Store
