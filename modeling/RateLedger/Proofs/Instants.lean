import RateLedger.Proofs.Deliveries
import RateLedger.Proofs.Scannable

/-!
# The second of an instant, twice

The second of a reading is found in two ways. An observation drops the fraction of its second, which
is exact; a deletion divides the microseconds by a million, rounds to the nearest double, and then
truncates. Both agree as long as the last place of the double is less than two microseconds: that is
up to `2 ^ 34` seconds (`unixSeconds_eq`). Beyond, the last microsecond of a second may be rounded
up to the next one, and no further (`unixSeconds_near`). So until the year 2514 an observation is
deleted by the very reading that it was taken at (`delete_at_reading`).
-/

namespace RateLedger

open Number (twoTo)
open Time (microsPerSecond)

namespace Time.DateTime

variable {d : DateTime} {second : Nat}

/-- The second of a reading after the epoch is the whole part of a positive double. -/
theorem unixSeconds_of_nonneg (h : 0 ≤ d.instant) :
    d.unixSeconds =
      ((Binary64.ofRatio false d.instant.toNat 1000000).units / Binary64.one : Nat) := by
  have hsign : decide (d.instant < 0) = false := decide_eq_false (Int.not_lt.2 h)
  have hsize : d.instant.natAbs = d.instant.toNat := by omega
  unfold unixSeconds Binary64.truncate
  rw [hsign, hsize, Binary64.isNegative_ofRatio, if_neg Bool.false_ne_true]

section

variable (h : d.instant / microsPerSecond = second)

include h

/-- The whole part of the instant in seconds, as a quotient of natural numbers. -/
theorem toNat_instant_div : 0 ≤ d.instant ∧ d.instant.toNat / 1000000 = second := by
  unfold microsPerSecond at h
  omega

theorem unixSeconds_near (hsecond : second ≤ maxSecond) :
    d.unixSeconds = second ∨ d.unixSeconds = second + 1 := by
  have h53 : twoTo 53 = 9007199254740992 := rfl
  obtain ⟨hnonneg, hwhole⟩ := toNat_instant_div h
  unfold maxSecond at hsecond
  rw [unixSeconds_of_nonneg hnonneg]
  have hnear := Binary64.whole_ofRatio false d.instant.toNat (show 0 < 1000000 by decide) (by omega)
  omega

/-- Two last places of a double below `2 ^ 34` are more than two millionths. -/
theorem unixSeconds_eq (hsecond : second < twoTo 34) : d.unixSeconds = second := by
  obtain ⟨hnonneg, hwhole⟩ := toNat_instant_div h
  have hcoarse : 1000000 < twoTo (54 - 34) := by decide
  rw [unixSeconds_of_nonneg hnonneg, Binary64.whole_ofRatio_eq false d.instant.toNat (by decide)
    (by decide) hcoarse (hwhole ▸ hsecond), hwhole]

end

/-- A whole second is its own second. -/
theorem unixSeconds_of_whole (h : d.instant = second * microsPerSecond)
    (hsecond : second ≤ maxSecond) : d.unixSeconds = second := by
  have h53 : twoTo 53 = 9007199254740992 := rfl
  have hmicros : d.instant.toNat = second * 1000000 := by
    unfold microsPerSecond at h
    omega
  have hnonneg : 0 ≤ d.instant := by
    unfold microsPerSecond at h
    omega
  unfold maxSecond at hsecond
  rw [unixSeconds_of_nonneg hnonneg, hmicros,
    Binary64.whole_ofRatio_mul false second (by decide) (by omega)]

/-- The last microsecond of the year 9999 is rounded up to the year 10000. -/
example : (⟨maxWall, some 0, by decide, by decide⟩ : DateTime).unixSeconds = maxSecond + 1 := by
  decide +kernel

end Time.DateTime

/-! ## Deletions -/

/-- A deletion that comes to its end leaves no entry, whatever the rows of the table. -/
theorem Table.lookup_written_delete (table : Table) (pairId : String) {seconds : Int}
    (hfits : Key.fits seconds = true) :
    (table.written (table.draft (.delete pairId seconds)).writes).lookup
      (Key.timed pairId seconds) = none := by
  dsimp only [draft]
  rw [if_pos hfits]
  set left := (Write.remove (Key.timed pairId seconds)).applied table with hleft
  show (left.written (left.draftRepair pairId seconds).writes).lookup _ = none
  rw [lookup_written, hleft]
  · exact (table.lookup_erase _ _).trans (if_pos rfl)
  · -- what is left to write goes to the identity row
    intro write hwrite
    have hkey : write.key = Key.identity pairId := by
      rcases writes_draftRepair left pairId seconds with
        hwrites | hwrites | ⟨record, -, hwrites⟩ <;>
        rw [hwrites] at hwrite
      · cases hwrite
      · rw [List.mem_singleton.1 hwrite]
        rfl
      · rw [List.mem_singleton.1 hwrite]
        rfl
    rw [hkey]
    exact (Key.timed_ne_identity_self pairId seconds).symm

namespace Store

variable {s : Store} {b : Nat} {pairId : String} {seconds : Int}

/-- Where an edit ends well, or the engine is reliable, all its writes are made. -/
theorem perform_edit (hopen : s.isOpen b = true) (change : Edit)
    (hends : (s.perform (change.step b)).1 = .ok ⟨⟩ ∨ s.IsReliable) :
    ∃ trace, (s.perform (change.step b)).2 =
      (s.withView b ((s.viewOf b).written ((s.viewOf b).draft change).writes)).withTrace trace := by
  obtain ⟨events, made, -, hafter, ⟨hkept, rfl, -⟩ | ⟨-, hplan, fault, -, hfault⟩⟩ :=
    (makes_edit hopen change).run
  · rw [undoneBy_of_not _ _ hkept] at hafter
    exact ⟨_, hafter⟩
  · rcases hends with hok | hreliable
    · cases hok.symm.trans hfault
    · exact absurd hreliable hplan

theorem IsReliable.perform_edit (h : s.IsReliable) (hopen : s.isOpen b = true) (change : Edit) :
    (s.perform (change.step b)).2.IsReliable := by
  obtain ⟨trace, hafter⟩ := Store.perform_edit hopen change (.inr h)
  rw [hafter]
  exact h

/-- Where a deletion ends well, or the engine is reliable, the batch has lost the entry. -/
theorem lookup_of_delete (hopen : s.isOpen b = true) (hfits : Key.fits seconds = true)
    (hends : (s.perform (delete b pairId seconds)).1 = .ok ⟨⟩ ∨ s.IsReliable) :
    (s.perform (delete b pairId seconds)).2.isOpen b = true ∧
      ((s.perform (delete b pairId seconds)).2.viewOf b).lookup
        (Key.timed pairId seconds) = none := by
  obtain ⟨trace, hafter⟩ := perform_edit hopen (.delete pairId seconds) hends
  change (s.perform (delete b pairId seconds)).2 = _ at hafter
  rw [hafter]
  refine ⟨(isOpen_withView _ _ _ _).trans hopen, ?_⟩
  change ((s.withView b _).viewOf b).lookup _ = none
  rw [viewOf_withView hopen]
  exact Table.lookup_written_delete _ _ hfits

/-- A deletion from a batch with sound rows ends well, if the engine does not fail. -/
theorem delete_isOk (hopen : s.isOpen b = true) (hfits : Key.fits seconds = true)
    (hreliable : s.IsReliable) (hsound : (s.viewOf b).IsSound) :
    (s.perform (delete b pairId seconds)).1 = .ok ⟨⟩ := by
  have hscan : (s.viewOf b).IsScannable := fun row hrow _ => hsound row hrow
  have hmakes := makes_edit hopen (.delete pairId seconds)
  rw [hscan.answer fun _ _ heq => (Edit.delete.inj heq).2 ▸ hfits] at hmakes
  obtain ⟨trace, hrun⟩ := hmakes.perform hreliable
  exact congrArg Prod.fst hrun

/-- Let an observation be taken at a reading. Its second is the whole part of the instant of the
reading, and the same number comes out when the second is found again from its own time. From the
reading, a deletion finds that second or the next one, and it finds that second below `2 ^ 34`. So
below that, to delete from an open batch with the reading takes the entry of the observation out of
the batch, unless the engine fails: if the rows are sound the deletion ends well, and if not the
entry is gone just the same. A commit then takes the entry out of the store. -/
theorem delete_at_reading {base quote : String} {rate : Binary64} {d : Time.DateTime}
    {x : Observation} (hx : Observation.takenAt base quote rate d = .ok x) :
    x.time.unixSeconds = x.seconds ∧
    (x.seconds * microsPerSecond ≤ d.instant ∧ d.instant < (x.seconds + 1) * microsPerSecond) ∧
    (d.unixSeconds = x.seconds ∨ d.unixSeconds = x.seconds + 1) ∧
    (x.seconds < twoTo 34 → d.unixSeconds = x.seconds ∧
      ∀ s : Store, ∀ b, s.isOpen b = true →
        let out := s.perform (delete b x.pairId d.unixSeconds)
        (out.1 = .ok ⟨⟩ ∨ s.IsReliable →
          out.2.isOpen b = true ∧ (out.2.viewOf b).lookup (Key.ofObservation x) = none) ∧
        (s.IsReliable → (s.viewOf b).IsSound → out.1 = .ok ⟨⟩) ∧
        (s.IsReliable →
          (out.2.perform (commit b)).2.committed.lookup (Key.ofObservation x) = none)) := by
  obtain ⟨-, hfloor⟩ := Observation.takenAt_eq_ok_iff.1 hx
  have hsame := x.instant_time
  refine ⟨Time.DateTime.unixSeconds_of_whole hsame x.inTime, ?_,
    Time.DateTime.unixSeconds_near hfloor x.inTime, fun hearly => ?_⟩
  · unfold microsPerSecond at hfloor ⊢
    omega
  · have hsecond := Time.DateTime.unixSeconds_eq hfloor hearly
    have hfits : Key.fits x.seconds = true := (Bytes.isModerate_second x.inTime).fits
    refine ⟨hsecond, fun s b hopen => ?_⟩
    rw [hsecond]
    refine ⟨lookup_of_delete hopen hfits, delete_isOk hopen hfits, fun hreliable => ?_⟩
    obtain ⟨hstill, hgone⟩ := lookup_of_delete hopen hfits (.inr hreliable)
    have hstays : (s.perform (delete b x.pairId x.seconds)).2.IsReliable :=
      hreliable.perform_edit hopen (.delete x.pairId x.seconds)
    rw [committed_of_passed (hstays.strike? .commit) hstill]
    exact hgone

/-- The last microsecond before `2 ^ 34` seconds, on a clock that is half past five hours ahead. -/
def lateReading : Time.DateTime :=
  ⟨17179888983999999, some (19800 * microsPerSecond), by decide, by decide⟩

theorem delete_at_reading_late :
    let x := parity "USD" 17179869183 (by decide) (by decide)
    let s := Store.fresh.after [.openBatch ⟨0⟩, .edit 0 (.save x)]
    Observation.takenAt "EUR" "USD" x.rate lateReading = .ok x ∧
    s.isOpen 0 = true ∧ (s.viewOf 0).lookup (Key.ofObservation x) = some x.toRecord ∧
    ((s.perform (delete 0 "EUR2USD" lateReading.unixSeconds)).2.viewOf 0).lookup
      (Key.ofObservation x) = none := by
  intro x s
  have hx : Observation.takenAt "EUR" "USD" x.rate lateReading = .ok x := by decide
  have hopen : s.isOpen 0 = true := by decide
  have hreliable : s.IsReliable := fun _ _ => rfl
  have hheld : (s.viewOf 0).lookup (Key.ofObservation x) = some x.toRecord := by decide +kernel
  obtain ⟨-, -, -, hdeleted⟩ := delete_at_reading hx
  have hgone := (hdeleted (by decide)).2 s 0 hopen
  exact ⟨hx, hopen, hheld, (hgone.1 (.inr hreliable)).2⟩

end Store

end RateLedger
