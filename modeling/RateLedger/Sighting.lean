import RateLedger.Observation
import RateLedger.Text.Wide

/-!
# Sightings

A sighting is a rate as it was told. It keeps the rules of an observation, but its codes are wide
texts, so a store can hold it only if both of them have a form in UTF-8. Main statements: an
accepted sighting holds the values given (`make_eq_ok_iff`), it is stored as the observation that it
is (`stored_eq_ok_iff`), and for codes without halves its rules are those of an observation
(`takenAt_plain`).
-/

namespace RateLedger

open Text (Flaw Wide)

/-- A rate as it was told. -/
structure Sighting where
  base : Wide
  quote : Wide
  rate : Binary64
  /-- Seconds since the epoch. -/
  seconds : Nat
  base_ne : base ≠ ""
  quote_ne : quote ≠ ""
  differ : base ≠ quote
  isRate : rate.isRate = true
  inTime : seconds ≤ Time.maxSecond

/-- An observation, as a sighting. -/
def Observation.sighting (x : Observation) : Sighting where
  base := x.base
  quote := x.quote
  rate := x.rate
  seconds := x.seconds
  base_ne h := x.base_ne (Wide.plain.inj h)
  quote_ne h := x.quote_ne (Wide.plain.inj h)
  differ h := x.differ (Wide.plain.inj h)
  isRate := x.isRate
  inTime := x.inTime

namespace Sighting

instance : Coe Observation Sighting := ⟨Observation.sighting⟩

/-- The sighting with these values, for a second before the year 10000. -/
def make (base quote : Wide) (rate : Binary64) (seconds : Int) (h : seconds ≤ Time.maxSecond) :
    Except Observation.Fault Sighting :=
  Observation.orFault
    (Observation.fault? (base == "" || quote == "") (base == quote) rate seconds) fun hfault =>
      have hsound := Observation.fault?_eq_none_iff.1 hfault
      have hcodes : base ≠ "" ∧ quote ≠ "" := by simpa using hsound.1
      ⟨base, quote, rate, seconds.toNat, hcodes.1, hcodes.2, by simpa using hsound.2.1,
        hsound.2.2.1, by omega⟩

/-- The sighting of a rate at the reading of a clock, without the fraction of its second. -/
def takenAt (base quote : Wide) (rate : Binary64) (time : Time.DateTime) :
    Except Observation.Refusal Sighting :=
  Observation.atReading (make base quote rate) time

/-- The sighting with fields that may be missing, by the names of the fields. -/
def ofFields (base quote : Option Wide) (rate : Option Binary64) (time : Option Time.DateTime) :
    Except Observation.Refusal Sighting :=
  match base, quote, rate, time with
  | some base, some quote, some rate, some time => takenAt base quote rate time
  | _, _, _, _ =>
    let missing (name : String) (isThere : Bool) : List Problem :=
      if isThere then [] else [.ofField name .missing]
    if (time.bind (·.toUtc?)).isNone && time.isSome then .error .outOfRange
    else .error (.invalid (missing "from" base.isSome ++ missing "to" quote.isSome ++
      missing "rate" rate.isSome ++ missing "timestamp" time.isSome))

/-- The time of a sighting. -/
def time (y : Sighting) : Time.DateTime := .ofSecond y.seconds y.inTime

/-- The observation that a sighting is stored as. -/
def stored (y : Sighting) : Except Flaw Observation :=
  match hbase : y.base.checked, hquote : y.quote.checked with
  | .error flaw, _ => .error flaw
  | .ok _, .error flaw => .error flaw
  | .ok base, .ok quote =>
    have hb := Wide.checked_eq_ok_iff.1 hbase
    have hq := Wide.checked_eq_ok_iff.1 hquote
    .ok ⟨base, quote, y.rate, y.seconds, fun h => y.base_ne (hb.trans (congrArg _ h)),
      fun h => y.quote_ne (hq.trans (congrArg _ h)),
      fun h => y.differ ((hb.trans (congrArg _ h)).trans hq.symm), y.isRate, y.inTime⟩

theorem make_eq_ok_iff {base quote : Wide} {rate : Binary64} {seconds : Int}
    {h : seconds ≤ Time.maxSecond} {y : Sighting} :
    make base quote rate seconds h = .ok y ↔
      y.base = base ∧ y.quote = quote ∧ y.rate = rate ∧ (y.seconds : Int) = seconds := by
  unfold make
  rw [Observation.orFault_eq_ok_iff]
  constructor
  · rintro ⟨hfault, rfl⟩
    exact ⟨rfl, rfl, rfl, Int.toNat_of_nonneg (Observation.fault?_eq_none_iff.1 hfault).2.2.2⟩
  · rintro ⟨rfl, rfl, rfl, rfl⟩
    have hempty : (y.base == "" || y.quote == "") = false := by simp [y.base_ne, y.quote_ne]
    have hsame : (y.base == y.quote) = false := by simp [y.differ]
    exact ⟨Observation.fault?_eq_none_iff.2 ⟨hempty, hsame, y.isRate, Int.natCast_nonneg _⟩, rfl⟩

theorem ofObservation_inj {x z : Observation} (h : (x : Sighting) = z) : x = z :=
  Except.ok.inj (congrArg stored h)

theorem stored_eq_ok_iff {y : Sighting} {x : Observation} : y.stored = .ok x ↔ y = x := by
  constructor
  · intro h
    unfold stored at h
    split at h
    · cases h
    · cases h
    · rename_i base quote hbase hquote
      cases h
      obtain ⟨_, _, _, _, _, _, _, _, _⟩ := y
      obtain rfl := Wide.checked_eq_ok_iff.1 hbase
      obtain rfl := Wide.checked_eq_ok_iff.1 hquote
      rfl
  · rintro rfl
    rfl

/-- The codes are looked at in their order. -/
theorem stored_eq_error_iff {y : Sighting} {flaw : Flaw} :
    y.stored = .error flaw ↔ y.base.checked = .error flaw ∨
      (∃ base, y.base.checked = .ok base) ∧ y.quote.checked = .error flaw := by
  unfold stored
  split
  · rename_i hbase
    simp [hbase]
  · rename_i hbase hquote
    simp [hbase, hquote]
  · rename_i hbase hquote
    simp [hbase, hquote]

/-- Codes without halves are checked as those of an observation. -/
theorem make_plain (base quote : String) (rate : Binary64) (seconds : Int)
    (h : seconds ≤ Time.maxSecond) :
    make base quote rate seconds h =
      (Observation.make base quote rate seconds h).map Observation.sighting := by
  have hbeq : ∀ a b : String, ((a : Wide) == (b : Wide)) = (a == b) := fun a b => by
    rw [Bool.eq_iff_iff]
    simp
  cases hmake : Observation.make base quote rate seconds h with
  | ok x =>
    obtain ⟨rfl, rfl, rfl, hseconds⟩ := Observation.make_eq_ok_iff.1 hmake
    exact make_eq_ok_iff.2 ⟨rfl, rfl, rfl, hseconds⟩
  | error fault =>
    refine Observation.orFault_eq_error_iff.2 ?_
    rw [hbeq, hbeq, hbeq]
    exact Observation.orFault_eq_error_iff.1 hmake

theorem takenAt_plain (base quote : String) (rate : Binary64) (time : Time.DateTime) :
    takenAt base quote rate time =
      (Observation.takenAt base quote rate time).map Observation.sighting := by
  unfold takenAt Observation.takenAt Observation.atReading
  cases time.toUtc? with
  | none => rfl
  | some utc =>
    dsimp only
    rw [make_plain]
    cases Observation.make base quote rate (Observation.wholeSeconds utc)
      (Observation.wholeSeconds_le utc) <;> rfl

end Sighting

end RateLedger
