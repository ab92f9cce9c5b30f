import RateLedger.Proofs.DateTexts
import RateLedger.Proofs.Instants
import RateLedger.Proofs.Zones

/-!
# The instant that a vendor's time means

A vendor writes the time that the clock of a zone shows. The reader takes it for the first instant
at which the clock shows it, and an observation put at that time keeps its second, as all distances
from UTC are whole seconds. So the instant that was written is read again, unless the clock went
back and showed the time for the second time: then the reader is too early by as much as the clock
went back (`readTimeIn_clock`).
-/

namespace RateLedger

open Time (DateTime Zone microsPerSecond)
open Time.DateText (ofClock ofDay)

namespace Time

/-- The clock of a zone shows at an instant what it has shown before. -/
def Zone.Repeats (zone : Zone) (instant : Int) : Prop :=
  ∃ earlier, earlier < instant ∧ zone.clock earlier = zone.clock instant

/-- The date of a clock lies in the year of the wall-clock time. -/
theorem DateTime.year_date (d : DateTime) : d.date.year = Zone.yearOf d.wall := by
  have hlower := d.lower
  show Date.yearOfDay _ = Date.yearOfDay _
  congr 1
  unfold sinceYearOne
  unfold minWall microsPerDay microsPerSecond at *
  omega

end Time

namespace Observation

variable {base quote : String} {rate : Binary64} {time : DateTime} {first : Int} {x : Observation}

/-- An observation at the start of a second keeps the second. -/
theorem unixSeconds_of_takenAt (hinstant : time.instant = first * microsPerSecond)
    (h : takenAt base quote rate time = .ok x) : x.time.unixSeconds = first := by
  obtain ⟨-, hseconds⟩ := takenAt_eq_ok_iff.1 h
  rw [DateTime.unixSeconds_of_whole x.instant_time x.inTime, ← hseconds, hinstant]
  exact Int.mul_ediv_cancel _ (by decide)

theorem takenAt_of_seconds (hinstant : time.instant = first * microsPerSecond)
    (h : (x.seconds : Int) = first) : takenAt x.base x.quote x.rate time = .ok x := by
  refine takenAt_eq_ok_iff.2 ⟨⟨rfl, rfl, rfl⟩, ?_⟩
  rw [hinstant, h]
  exact Int.mul_ediv_cancel _ (by decide)

end Observation

namespace Vendor.Entry

variable {database : Zone.Database} {name : Text.Wide} {zone : Zone}

/-- What is written of a clock in a zone is read as the first instant at which the clock shows it.
-/
theorem readTimeIn_ofClock (hknown : Zone.namedIn database name = .ok zone)
    (hzone : zone.IsRegular) {clock : DateTime} {second : Int}
    (hclock : clock.wall = zone.clock (second * microsPerSecond)) (shown : Json) :
    ∃ time first, readTimeIn database (ofClock clock.date clock.secondOfDay) name shown = .ok time ∧
      time.instant = first * microsPerSecond ∧
      zone.clock (first * microsPerSecond) = zone.clock (second * microsPerSecond) ∧
      ∀ other, zone.clock other = zone.clock (second * microsPerSecond) →
        first * microsPerSecond ≤ other := by
  have hmicrosecond : clock.microsecond = 0 := by
    unfold DateTime.microsecond DateTime.sinceYearOne
    rw [hclock]
    unfold Zone.clock Time.minWall Time.microsPerDay microsPerSecond
    omega
  have hwall : DateTime.wallOf clock.date clock.secondOfDay = clock.wall := by
    have hparts := clock.wallOf_date
    rw [hmicrosecond] at hparts
    omega
  obtain ⟨hfound, hfirst⟩ := Zone.clock_reading hzone hclock.symm clock.lower
  obtain ⟨first, hwhole⟩ : ∃ first : Int, clock.wall -
      zone.offsetAt (Zone.yearOf clock.wall) clock.wall * microsPerSecond =
        first * microsPerSecond := by
    refine ⟨second + zone.offsetOf (second * microsPerSecond) -
      zone.offsetAt (Zone.yearOf clock.wall) clock.wall, ?_⟩
    rw [Int.sub_mul, Int.add_mul]
    exact congrArg (· - _) hclock
  rw [hwhole] at hfound hfirst
  have hread := Time.DateText.read?_ofClock clock.isValid_date clock.secondOfDay_lt
  obtain ⟨time, htime, hinstant⟩ := readTimeIn_eq_ok_iff.2
    ⟨zone, _, clock.date, clock.secondOfDay, hknown, rfl, hread, rfl⟩
  refine ⟨time, first, htime, ?_, hfound.trans hclock, hclock ▸ hfirst⟩
  rw [hinstant, clock.year_date, hwall, hwhole]

/-- Let the zones of a database have changes that keep apart, and let a clock of a zone known there,
or of UTC, show the time of some second. From that time, written as a date and a time of the day,
the reader gets a time that all observations put at it have for their second, and that every
observation of the second can be put at: the second itself, unless the clock has shown the same time
before. In that case it is the second at which the clock did so first, which is earlier by as much
as the clock has gone back. And a date alone is read as the date with the start of the day. -/
theorem readTimeIn_clock
    (hzones : ∀ name zone, database name = .ok zone → zone.IsRegular)
    (hknown : Zone.namedIn database name = .ok zone) {clock : DateTime} {second : Int}
    (hclock : clock.wall = zone.clock (second * microsPerSecond)) (shown : Json) :
    (∃ time first,
      readTimeIn database (ofClock clock.date clock.secondOfDay) name shown = .ok time ∧
      (¬zone.Repeats (second * microsPerSecond) → first = second) ∧
      (zone.Repeats (second * microsPerSecond) → first < second ∧
        first = second - (zone.offsetOf (first * microsPerSecond) -
          zone.offsetOf (second * microsPerSecond)) ∧
        zone.clock (first * microsPerSecond) = clock.wall ∧
        ¬zone.Repeats (first * microsPerSecond)) ∧
      (∀ base quote rate x, Observation.takenAt base quote rate time = .ok x →
        x.time.unixSeconds = first) ∧
      ∀ x : Observation, (x.seconds : Int) = first →
        Observation.takenAt x.base x.quote x.rate time = .ok x) ∧
    ∀ date : Time.Date, date.isValid = true →
      readTimeIn database (ofDay date) name shown =
        readTimeIn database (ofClock date 0) name shown := by
  have hzone := Zone.isRegular_of_namedIn hzones hknown
  constructor
  · obtain ⟨time, first, htime, hinstant, hsame, hfirst⟩ :=
      readTimeIn_ofClock hknown hzone hclock shown
    refine ⟨time, first, htime, fun honce => ?_, fun hagain => ?_,
      fun _ _ _ _ hx => Observation.unixSeconds_of_takenAt hinstant hx,
      fun x hx => Observation.takenAt_of_seconds hinstant hx⟩
    · have hle := hfirst _ rfl
      have hnot : ¬first * microsPerSecond < second * microsPerSecond :=
        fun hlt => honce ⟨_, hlt, hsame⟩
      unfold microsPerSecond at *
      omega
    · obtain ⟨earlier, hearlier, hshown⟩ := hagain
      have hle := hfirst earlier hshown
      refine ⟨?_, ?_, hsame.trans hclock.symm, fun ⟨before, hbefore, hagain⟩ => ?_⟩
      · unfold microsPerSecond at *
        omega
      · unfold Zone.clock at hsame
        unfold microsPerSecond at *
        omega
      · have := hfirst before (hagain.trans hsame)
        omega
  · intro date hdate
    unfold readTimeIn
    dsimp only [Text.Wide.plain?, Option.bind_some]
    rw [Time.DateText.read?_ofDay hdate, Time.DateText.read?_ofClock hdate (by decide)]

/-- A zone that was half an hour behind for a while. -/
def pyongyang : Zone := .upTo 1439564400 32400 (.upTo 1525446000 30600 (.fixed 32400))

theorem isRegular_pyongyang : pyongyang.IsRegular := by
  have hnext : (Zone.upTo 1525446000 30600 (.fixed 32400)).offsetOf
      (1439564400 * microsPerSecond) = 30600 := by decide
  refine ⟨⟨trivial, fun instant hinstant => ?_, fun instant hinstant => ?_⟩,
    fun instant hinstant => ?_, fun instant hinstant => ?_⟩
  · exact Int.add_le_add_right hinstant _
  · simp only [Zone.clock, Zone.offsetOf, microsPerSecond] at *
    omega
  · unfold Zone.clock
    rw [hnext]
    simp only [Zone.offsetOf, microsPerSecond] at *
    omega
  · unfold Zone.clock
    rw [hnext]
    simp only [Zone.offsetOf, microsPerSecond] at *
    omega

/-- A zone whose clock goes forward by two hours in March and back in October. -/
def troll : Zone := .daylight 0 7200 ⟨3, .last, 6, 3600⟩ ⟨10, .last, 6, 10800⟩

theorem isRegular_troll : troll.IsRegular :=
  Zone.isRegular_daylight (by decide) ⟨by decide, by decide⟩ ⟨by decide, by decide⟩ (by decide)

/-- Ten minutes after the clock was set back by half an hour, it shows twenty to twelve again, and
that is read as twenty minutes before the change. -/
theorem readTimeIn_clock_set_back :
    let database : Zone.Database := fun name =>
      if name = "Asia/Pyongyang" then .ok pyongyang
      else if name = "Antarctica/Troll" then .ok troll
      else .error .unknown
    let x := Store.parity "USD" 1439563200 (by decide) (by decide)
    pyongyang.Repeats (1439565000 * microsPerSecond) ∧
    ∃ time, readTimeIn database "2015-08-14 23:40:00" "Asia/Pyongyang" .null = .ok time ∧
      Observation.takenAt "EUR" "USD" x.rate time = .ok x ∧
      x.time.unixSeconds = 1439565000 - 1800 := by
  intro database x
  have hzones : ∀ name zone, database name = .ok zone → zone.IsRegular := by
    intro name zone h
    dsimp only [database] at h
    split at h
    · cases h
      exact isRegular_pyongyang
    · split at h
      · cases h
        exact isRegular_troll
      · cases h
  have hknown : Zone.namedIn database "Asia/Pyongyang" = .ok pyongyang := by decide +kernel
  let clock : DateTime := ⟨1439595600000000, none, by decide, by decide⟩
  have hclock : clock.wall = pyongyang.clock (1439565000 * microsPerSecond) := by decide
  have htext : ofClock clock.date clock.secondOfDay = "2015-08-14 23:40:00" := by decide +kernel
  have hrepeats : pyongyang.Repeats (1439565000 * microsPerSecond) :=
    ⟨1439563200 * microsPerSecond, by decide, by decide⟩
  obtain ⟨⟨time, first, htime, -, hagain, hkept, hput⟩, -⟩ :=
    readTimeIn_clock hzones hknown hclock .null
  rw [htext] at htime
  obtain ⟨hless, hback, -⟩ := hagain hrepeats
  have hfirst : first = 1439563200 := by
    have hsecond : pyongyang.offsetOf (1439565000 * microsPerSecond) = 30600 := by decide
    rw [hsecond] at hback
    simp only [pyongyang, Zone.offsetOf, microsPerSecond] at hback
    omega
  have hx := hput x hfirst.symm
  exact ⟨hrepeats, time, htime, hx, (hkept _ _ _ _ hx).trans hfirst⟩

end Vendor.Entry

end RateLedger
