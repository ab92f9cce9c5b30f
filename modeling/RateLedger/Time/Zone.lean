import RateLedger.Text.UpperCase
import RateLedger.Text.Wide
import RateLedger.Time.DateTime

/-!
# Time zones

A zone keeps one distance from UTC, or changes to daylight time and back in fixed weeks of the year,
or keeps a distance up to an instant and is another zone from then on. At an instant a zone has one
distance from UTC. A wall-clock time that comes twice, when the clock goes back, means the first of
the two; one that never comes, when the clock goes forward, is read with the distance from before
the change. So on the clock, daylight time covers the times from the first one after the change
forward up to the change back, and a distance up to an instant covers the times before the later one
of those that end and begin at the instant. Zones are found by name in a database, which may also
hold something under a name that cannot be read.
-/

namespace RateLedger.Time

/-- A week of a month: one of the first four from its first day on, or the last. -/
inductive Week
  | first
  | second
  | third
  | fourth
  | last
  deriving DecidableEq, Repr

/-- The day number of a weekday, Monday being 0, in a week of a month. -/
def Week.day (week : Week) (weekday year month : Nat) : Nat :=
  let start := Date.toDay ⟨year, month, 1⟩
  let soonest := start + (weekday + 7 - Date.weekday start) % 7
  match week with
  | .first => soonest
  | .second => soonest + 7
  | .third => soonest + 14
  | .fourth => soonest + 21
  | .last => soonest + (start + Date.monthLength year month - 1 - soonest) / 7 * 7

/-- A yearly change of a clock: a weekday of a month, and a wall-clock second counted from the start
of that day. -/
structure YearlyChange where
  month : Nat
  week : Week
  weekday : Nat
  second : Int
  deriving DecidableEq, Repr

/-- The wall-clock microseconds of a change in a year. -/
def YearlyChange.wall (change : YearlyChange) (year : Nat) : Int :=
  (change.week.day change.weekday year change.month - epochDay : Int) * microsPerDay +
    change.second * microsPerSecond

/-- A time zone. -/
inductive Zone
  /-- Always this many seconds ahead of UTC. -/
  | fixed (offset : Int)
  /-- Ahead of UTC by `standard` seconds, and by `saving` more from `forward`, read on the standard
  clock, to `back`, read on the daylight clock. -/
  | daylight (standard saving : Int) (forward back : YearlyChange)
  /-- Ahead of UTC by `offset` seconds up to the second `change`, counted from the epoch, and from
  then on as another zone. -/
  | upTo (change offset : Int) (later : Zone)
  deriving DecidableEq, Repr

namespace Zone

/-- Whether a time lies from `start` to `stop`, or outside of `stop` to `start` when these come the
other way round. -/
def isWithin (start stop time : Int) : Bool :=
  if start ≤ stop then start ≤ time ∧ time < stop else start ≤ time ∨ time < stop

/-- The year in UTC of an instant. -/
def yearOf (instant : Int) : Nat := Date.yearOfDay (instant / microsPerDay + epochDay).toNat

/-- The distance from UTC, in seconds, at an instant. -/
def offsetOf : (zone : Zone) → (instant : Int) → Int
  | .fixed offset, _ => offset
  | .daylight standard saving forward back, instant =>
    let year := yearOf instant
    let start := forward.wall year - standard * microsPerSecond
    let stop := back.wall year - (standard + saving) * microsPerSecond
    if isWithin start stop instant then standard + saving else standard
  | .upTo change offset later, instant =>
    if instant < change * microsPerSecond then offset else later.offsetOf instant

/-- The distance from UTC, in seconds, that belongs to a wall-clock time of a year. -/
def offsetAt : (zone : Zone) → (year : Nat) → (wall : Int) → Int
  | .fixed offset, _, _ => offset
  | .daylight standard saving forward back, year, wall =>
    let start := forward.wall year + saving * microsPerSecond
    let stop := back.wall year
    if isWithin start stop wall then standard + saving else standard
  | .upTo change offset later, year, wall =>
    let next := later.offsetOf (change * microsPerSecond)
    if wall < (change + max offset next) * microsPerSecond then offset
    else later.offsetAt year wall

/-- The reading of a clock in a zone that shows a date and a second of the day. -/
def reading? (zone : Zone) (date : Date) (secondOfDay : Nat) : Option DateTime :=
  let wall := DateTime.wallOf date secondOfDay
  DateTime.ofWall? wall (some (zone.offsetAt date.year wall * microsPerSecond))

/-- Why there is no zone with a name. -/
inductive Missing
  | unknown
  /-- What is held under the name cannot be read. -/
  | unreadable
  deriving DecidableEq, Repr

/-- A database of zones by name. -/
abbrev Database := Text.Wide → Except Missing Zone

/-- The zone with a name in a database; UTC is known in any case and without one. -/
def namedIn (database : Database) (name : Text.Wide) : Except Missing Zone :=
  if (name.plain?.map Text.UpperCase.ofText) = some "UTC" then .ok (.fixed 0) else database name

end Zone

end RateLedger.Time
