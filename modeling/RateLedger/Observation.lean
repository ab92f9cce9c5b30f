import RateLedger.Number.Binary64
import RateLedger.Pair
import RateLedger.Problem
import RateLedger.Time.DateTime

/-!
# Observations

An observation is the price of one unit of a base currency in a quote currency at a second in UTC
from 1970 to 9999. Its codes are not empty and differ, and its rate is finite and not below zero.
The type carries these rules; `make` checks values from outside, and `takenAt` takes the time from
the reading of a clock. Main statement: an accepted observation holds the values given
(`make_eq_ok_iff`).
-/

namespace RateLedger

/-- A rate is usable if it is finite and not below zero. -/
def Binary64.isRate (x : Binary64) : Bool := x.isFinite && !x.isBelowZero

/-- One observed rate. -/
structure Observation where
  base : String
  quote : String
  rate : Binary64
  /-- Seconds since the epoch. -/
  seconds : Nat
  base_ne : base ≠ ""
  quote_ne : quote ≠ ""
  differ : base ≠ quote
  isRate : rate.isRate = true
  inTime : seconds ≤ Time.maxSecond
  deriving DecidableEq

namespace Observation

/-- Why values make no observation. -/
inductive Fault
  | emptyCode
  | sameCode
  | badRate
  | beforeEpoch
  deriving DecidableEq, Repr

/-- What is said about values that make no observation. -/
def Fault.message : Fault → String
  | .emptyCode => "currency codes must be non-empty"
  | .sameCode => "from and to currencies must differ"
  | .badRate => "rate must be finite and >= 0"
  | .beforeEpoch => "timestamp must not precede the Unix epoch"

/-- The problem with the record as a whole. -/
def Fault.problem (fault : Fault) : Problem := ⟨[], .refused fault.message⟩

/-- Why a rate and a second make no observation for two codes, of which `isEmpty` says whether one
is empty and `isSame` whether they are equal. -/
def fault? (isEmpty isSame : Bool) (rate : Binary64) (seconds : Int) : Option Fault :=
  if isEmpty then some .emptyCode
  else if isSame then some .sameCode
  else if !rate.isRate then some .badRate
  else if seconds < 0 then some .beforeEpoch
  else none

theorem fault?_eq_none_iff {isEmpty isSame : Bool} {rate : Binary64} {seconds : Int} :
    fault? isEmpty isSame rate seconds = none ↔
      isEmpty = false ∧ isSame = false ∧ rate.isRate = true ∧ 0 ≤ seconds := by
  unfold fault?
  cases isEmpty <;> cases isSame <;> cases rate.isRate <;> simp

/-- What `build` makes of values that have no fault. -/
def orFault : (fault : Option Fault) → (build : fault = none → α) → Except Fault α
  | some fault, _ => .error fault
  | none, build => .ok (build rfl)

theorem orFault_eq_ok_iff {fault : Option Fault} {build : fault = none → α} {a : α} :
    orFault fault build = .ok a ↔ ∃ h, build h = a := by
  cases fault <;> simp [orFault]

theorem orFault_eq_error_iff {found : Option Fault} {build : found = none → α} {fault : Fault} :
    orFault found build = .error fault ↔ found = some fault := by
  cases found <;> simp [orFault]

/-- The observation with these values, for a second before the year 10000. -/
def make (base quote : String) (rate : Binary64) (seconds : Int)
    (h : seconds ≤ Time.maxSecond) : Except Fault Observation :=
  orFault (fault? (base == "" || quote == "") (base == quote) rate seconds) fun hfault =>
    have hsound := fault?_eq_none_iff.1 hfault
    have hcodes : base ≠ "" ∧ quote ≠ "" := by simpa using hsound.1
    ⟨base, quote, rate, seconds.toNat, hcodes.1, hcodes.2, by simpa using hsound.2.1,
      hsound.2.2.1, by omega⟩

/-- The pair of an observation. -/
def pair (x : Observation) : Pair := ⟨x.base, x.quote⟩

/-- The identifier of the pair of an observation. -/
def pairId (x : Observation) : String := Pair.idOf x.base x.quote

/-- The time of an observation. -/
def time (x : Observation) : Time.DateTime := .ofSecond x.seconds x.inTime

theorem instant_time (x : Observation) : x.time.instant = x.seconds * Time.microsPerSecond :=
  Int.sub_zero _

theorem make_eq_ok_iff {base quote : String} {rate : Binary64} {seconds : Int}
    {h : seconds ≤ Time.maxSecond} {x : Observation} :
    make base quote rate seconds h = .ok x ↔
      x.base = base ∧ x.quote = quote ∧ x.rate = rate ∧ (x.seconds : Int) = seconds := by
  unfold make
  rw [orFault_eq_ok_iff]
  constructor
  · rintro ⟨hfault, rfl⟩
    exact ⟨rfl, rfl, rfl, Int.toNat_of_nonneg (fault?_eq_none_iff.1 hfault).2.2.2⟩
  · rintro ⟨rfl, rfl, rfl, rfl⟩
    have hempty : (x.base == "" || x.quote == "") = false := by simp [x.base_ne, x.quote_ne]
    have hsame : (x.base == x.quote) = false := by simp [x.differ]
    exact ⟨fault?_eq_none_iff.2 ⟨hempty, hsame, x.isRate, Int.natCast_nonneg _⟩, rfl⟩

/-- Why values from outside make no observation. -/
inductive Refusal
  /-- The problems found in the values. -/
  | invalid (problems : List Problem)
  /-- The time lies outside the years 1 to 9999 in UTC. -/
  | outOfRange
  deriving DecidableEq, Repr

/-- The whole seconds of a UTC reading. -/
def wholeSeconds (d : Time.DateTime) : Int := d.wall / Time.microsPerSecond

theorem wholeSeconds_le (d : Time.DateTime) : wholeSeconds d ≤ Time.maxSecond := by
  have h := d.upper
  simp only [wholeSeconds, Time.maxWall, Time.maxSecond, Time.microsPerSecond] at *
  omega

/-- What `make` gives for the whole second in UTC of the reading of a clock. -/
def atReading (make : (seconds : Int) → seconds ≤ Time.maxSecond → Except Fault α)
    (time : Time.DateTime) : Except Refusal α :=
  match time.toUtc? with
  | none => .error .outOfRange
  | some utc =>
    match make (wholeSeconds utc) (wholeSeconds_le utc) with
    | .ok x => .ok x
    | .error fault => .error (.invalid [fault.problem])

/-- The observation of a rate at the reading of a clock, without the fraction of its second. -/
def takenAt (base quote : String) (rate : Binary64) (time : Time.DateTime) :
    Except Refusal Observation :=
  atReading (make base quote rate) time

end Observation

end RateLedger
