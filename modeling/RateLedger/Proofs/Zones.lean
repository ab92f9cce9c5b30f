import RateLedger.Proofs.Days
import RateLedger.Time.Zone

/-!
# Clocks in time zones

At every instant the clock of a zone shows one time, and a time may be shown at no instant, at one,
or at two where the clock goes back. The distance that belongs to a time on the clock is that of the
first instant at which the clock shows the time (`clock_reading`). This holds of zones whose changes
keep apart: the yearly ones stay away from the ends of the year and keep their order, so that it
does not matter in which year an instant near an end of the year is looked up, and a zone that takes
over at an instant shows earlier times before and no earlier times after (`IsRegular`).
-/

namespace RateLedger.Time

/-- The wall-clock time at which a year starts. -/
def yearStart (year : Nat) : Int := (Date.daysBeforeYear year - epochDay : Int) * microsPerDay

theorem yearStart_mono {year later : Nat} (h : year ≤ later) :
    yearStart year ≤ yearStart later := by
  have := Date.daysBeforeYear_mono h
  unfold yearStart microsPerDay microsPerSecond
  omega

namespace Zone

theorem yearOf_pos (instant : Int) : 1 ≤ yearOf instant := Date.yearOfDay_pos _

/-- Years are in the order of their instants; what comes before the year 1 counts as in it. -/
theorem yearOf_lt_iff {instant : Int} {year : Nat} (h : 2 ≤ year) :
    yearOf instant < year ↔ instant < yearStart year := by
  have hfirst : Date.daysBeforeYear 2 = 365 := rfl
  have hmono := Date.daysBeforeYear_mono h
  unfold yearOf yearStart
  rw [Date.yearOfDay_lt_iff]
  unfold microsPerDay microsPerSecond
  omega

/-- The year that a time of the calendar lies in. -/
theorem yearStart_yearOf {wall : Int} (h : minWall ≤ wall) :
    yearStart (yearOf wall) ≤ wall ∧ wall < yearStart (yearOf wall + 1) := by
  have hpos := yearOf_pos wall
  refine ⟨?_, (yearOf_lt_iff (Nat.succ_le_succ hpos)).1 (Nat.lt_succ_self _)⟩
  rcases Nat.eq_or_lt_of_le hpos with hone | hlater
  · have hfirst : yearStart 1 = minWall := by decide
    rw [← hone, hfirst]
    exact h
  · have hnot := mt (yearOf_lt_iff hlater).2 (Nat.lt_irrefl _)
    omega

/-- The time that the clock of a zone shows at an instant. -/
def clock (zone : Zone) (instant : Int) : Int := instant + zone.offsetOf instant * microsPerSecond

end Zone

/-- A yearly change that stays two days away from the ends of every year. -/
def YearlyChange.IsInner (change : YearlyChange) : Prop :=
  ∀ year, 1 ≤ year → yearStart year + 2 * microsPerDay ≤ change.wall year ∧
    change.wall year + 2 * microsPerDay ≤ yearStart (year + 1)

namespace Zone

/-- The changes of a zone keep apart. -/
def IsRegular : Zone → Prop
  | .fixed _ => True
  | .daylight standard saving forward back =>
    (-86400 < standard ∧ 0 < saving ∧ standard + saving < 86400) ∧
      (forward.IsInner ∧ back.IsInner) ∧
      ((∀ year, 1 ≤ year → forward.wall year + saving * microsPerSecond ≤ back.wall year) ∨
        ∀ year, 1 ≤ year → back.wall year < forward.wall year + saving * microsPerSecond)
  | .upTo change offset later =>
    later.IsRegular ∧
      (∀ instant, change * microsPerSecond ≤ instant →
        later.clock (change * microsPerSecond) ≤ later.clock instant) ∧
      ∀ instant, instant < change * microsPerSecond →
        later.clock instant <
          (change + max offset (later.offsetOf (change * microsPerSecond))) * microsPerSecond

/-! ## Yearly changes -/

theorem isWithin_of_before {start stop time : Int} (hstart : time < start) (hstop : time < stop) :
    isWithin start stop time = decide (stop < start) := by
  unfold isWithin
  split <;> rw [decide_eq_decide] <;> omega

theorem isWithin_of_after {start stop time : Int} (hstart : start ≤ time) (hstop : stop ≤ time) :
    isWithin start stop time = decide (stop < start) := by
  unfold isWithin
  split <;> rw [decide_eq_decide] <;> omega

theorem isWithin_add (start stop time shift : Int) :
    isWithin (start + shift) (stop + shift) (time + shift) = isWithin start stop time := by
  simp [isWithin]

section

variable {standard saving : Int} {forward back : YearlyChange}

/-- An instant less than a day outside of a year may be looked up in that year. -/
theorem offsetOf_daylight (h : (daylight standard saving forward back).IsRegular) {year : Nat}
    (hyear : 1 ≤ year) {instant : Int} (hlow : yearStart year - microsPerDay < instant)
    (hhigh : instant < yearStart (year + 1) + microsPerDay) :
    (daylight standard saving forward back).offsetOf instant =
      if isWithin (forward.wall year - standard * microsPerSecond)
        (back.wall year - (standard + saving) * microsPerSecond) instant then standard + saving
      else standard := by
  obtain ⟨hnear, ⟨hforward, hback⟩, horder⟩ := h
  have hown := yearOf_pos instant
  have hsame : decide (back.wall (yearOf instant) - (standard + saving) * microsPerSecond <
      forward.wall (yearOf instant) - standard * microsPerSecond) =
      decide (back.wall year - (standard + saving) * microsPerSecond <
        forward.wall year - standard * microsPerSecond) := by
    unfold microsPerSecond at *
    rw [decide_eq_decide]
    rcases horder with horder | horder
    · have := horder _ hown
      have := horder _ hyear
      omega
    · have := horder _ hown
      have := horder _ hyear
      omega
  obtain ⟨hforwardLow, hforwardHigh⟩ := hforward _ hown
  obtain ⟨hbackLow, hbackHigh⟩ := hback _ hown
  obtain ⟨hforwardStart, hforwardEnd⟩ := hforward _ hyear
  obtain ⟨hbackStart, hbackEnd⟩ := hback _ hyear
  show (if isWithin (forward.wall (yearOf instant) - standard * microsPerSecond)
    (back.wall (yearOf instant) - (standard + saving) * microsPerSecond) instant then
      standard + saving else standard) = _
  rcases Nat.lt_trichotomy (yearOf instant) year with hbefore | heq | hafter
  · -- past the changes of its own year, and short of those of the year after
    have hless := (yearOf_lt_iff (Nat.lt_of_le_of_lt hown hbefore)).1 hbefore
    have hmono : yearStart (yearOf instant + 1) ≤ yearStart year := yearStart_mono hbefore
    unfold microsPerDay microsPerSecond at *
    rw [isWithin_of_after (by omega) (by omega), isWithin_of_before (by omega) (by omega), hsame]
  · rw [heq]
  · have hmore : ¬instant < yearStart (year + 1) :=
      mt (yearOf_lt_iff (Nat.succ_le_succ hyear)).2 (Nat.not_lt.2 hafter)
    have hmono : yearStart (year + 1) ≤ yearStart (yearOf instant) := yearStart_mono hafter
    unfold microsPerDay microsPerSecond at *
    rw [isWithin_of_before (by omega) (by omega), isWithin_of_after (by omega) (by omega), hsame]

/-- A clock in a zone with daylight time is less than a day away from UTC. -/
theorem near_clock_daylight (h : (daylight standard saving forward back).IsRegular)
    (instant : Int) :
    let wall := (daylight standard saving forward back).clock instant
    wall - microsPerDay < instant ∧ instant < wall + microsPerDay := by
  obtain ⟨⟨hlow, hsaving, hhigh⟩, -⟩ := h
  unfold clock offsetOf microsPerDay microsPerSecond
  dsimp only
  split <;> omega

/-- An instant less than a day away from a time is in daylight time if daylight time covers what a
daylight clock shows then; the year is that of the time. -/
theorem offsetOf_of_near (h : (daylight standard saving forward back).IsRegular) {wall other : Int}
    (hwall : minWall ≤ wall) (hsince : wall - microsPerDay < other)
    (huntil : other < wall + microsPerDay) :
    (daylight standard saving forward back).offsetOf other =
      if isWithin (forward.wall (yearOf wall) + saving * microsPerSecond) (back.wall (yearOf wall))
        (other + (standard + saving) * microsPerSecond) then standard + saving else standard := by
  obtain ⟨hbegun, hended⟩ := yearStart_yearOf hwall
  have hstart : forward.wall (yearOf wall) - standard * microsPerSecond +
      (standard + saving) * microsPerSecond =
      forward.wall (yearOf wall) + saving * microsPerSecond := by
    unfold microsPerSecond
    omega
  rw [← hstart, ← Int.sub_add_cancel (back.wall (yearOf wall))
    ((standard + saving) * microsPerSecond), isWithin_add]
  exact offsetOf_daylight h (yearOf_pos wall) (by omega) (by omega)

/-- With daylight time, a time on the clock that daylight time covers is first shown in daylight
time, and any other time only in standard time. -/
theorem clock_reading_daylight (h : (daylight standard saving forward back).IsRegular)
    {wall instant : Int} (hshows : (daylight standard saving forward back).clock instant = wall)
    (hwall : minWall ≤ wall) :
    let zone := daylight standard saving forward back
    let found := wall - zone.offsetAt (yearOf wall) wall * microsPerSecond
    zone.clock found = wall ∧ ∀ other, zone.clock other = wall → found ≤ other := by
  intro zone found
  have hoffset : ∀ other, zone.clock other = wall → zone.offsetOf other =
      if isWithin (forward.wall (yearOf wall) + saving * microsPerSecond) (back.wall (yearOf wall))
        (other + (standard + saving) * microsPerSecond) then standard + saving else standard := by
    intro other hother
    obtain ⟨hsince, huntil⟩ := near_clock_daylight h other
    change zone.clock other - _ < _ at hsince
    change _ < zone.clock other + _ at huntil
    rw [hother] at hsince huntil
    exact offsetOf_of_near h hwall hsince huntil
  have hat : zone.offsetAt (yearOf wall) wall = if isWithin
      (forward.wall (yearOf wall) + saving * microsPerSecond) (back.wall (yearOf wall)) wall then
        standard + saving else standard := rfl
  obtain ⟨hlow, hsaving, hhigh⟩ := h.1
  unfold found
  rw [hat]
  unfold clock at hshows hoffset ⊢
  cases hcovered : isWithin (forward.wall (yearOf wall) + saving * microsPerSecond)
    (back.wall (yearOf wall)) wall with
  | true =>
    rw [if_pos rfl]
    constructor
    · have hsince : wall - microsPerDay < wall - (standard + saving) * microsPerSecond := by
        unfold microsPerDay microsPerSecond
        omega
      have huntil : wall - (standard + saving) * microsPerSecond < wall + microsPerDay := by
        unfold microsPerDay microsPerSecond
        omega
      rw [offsetOf_of_near h hwall hsince huntil, Int.sub_add_cancel, hcovered, if_pos rfl,
        Int.sub_add_cancel]
    · -- no clock of the zone is further ahead than the daylight clock
      intro other hother
      have hown := hoffset other hother
      unfold microsPerSecond at *
      split at hown <;> omega
  | false =>
    -- what a daylight clock shows would be covered
    have hstandard : ∀ other, other + zone.offsetOf other * microsPerSecond = wall →
        other = wall - standard * microsPerSecond := by
      intro other hother
      have hown := hoffset other hother
      split at hown
      next hday =>
        rw [← hown, hother, hcovered] at hday
        cases hday
      next => rw [← hother, hown, Int.add_sub_cancel]
    rw [if_neg Bool.false_ne_true, ← hstandard instant hshows]
    refine ⟨hshows, fun other hother => ?_⟩
    exact Int.le_of_eq ((hstandard instant hshows).trans (hstandard other hother).symm)

end

/-- The distance that belongs to a time on the clock of a zone leads to the first instant at which
the clock shows the time. -/
theorem clock_reading {zone : Zone} (h : zone.IsRegular) {wall instant : Int}
    (hshows : zone.clock instant = wall) (hwall : minWall ≤ wall) :
    let found := wall - zone.offsetAt (yearOf wall) wall * microsPerSecond
    zone.clock found = wall ∧ ∀ other, zone.clock other = wall → found ≤ other := by
  induction zone generalizing instant with
  | fixed offset =>
    unfold clock offsetOf offsetAt
    refine ⟨Int.sub_add_cancel _ _, fun other hother => ?_⟩
    omega
  | daylight standard saving forward back => exact clock_reading_daylight h hshows hwall
  | upTo change offset later ih =>
    obtain ⟨hlater, hafter, hbefore⟩ := h
    have hearly : ∀ other, other < change * microsPerSecond →
        (upTo change offset later).clock other = other + offset * microsPerSecond := by
      intro other hother
      simp [clock, offsetOf, hother]
    have hlate : ∀ other, change * microsPerSecond ≤ other →
        (upTo change offset later).clock other = later.clock other := by
      intro other hother
      simp [clock, offsetOf, Int.not_lt.2 hother]
    unfold offsetAt
    dsimp only
    have hturn : later.clock (change * microsPerSecond) = change * microsPerSecond +
      later.offsetOf (change * microsPerSecond) * microsPerSecond := rfl
    generalize later.offsetOf (change * microsPerSecond) = next at *
    by_cases hcovered : wall < (change + max offset next) * microsPerSecond
    · -- the time is shown before the change; where the clock jumps ahead, only then
      rw [if_pos hcovered]
      have hfound : wall - offset * microsPerSecond < change * microsPerSecond := by
        rcases Int.lt_or_le instant (change * microsPerSecond) with hless | hmore
        · rw [hearly instant hless] at hshows
          omega
        · rw [hlate instant hmore] at hshows
          have hahead := hafter instant hmore
          unfold microsPerSecond at *
          omega
      refine ⟨by rw [hearly _ hfound, Int.sub_add_cancel], fun other hother => ?_⟩
      rcases Int.lt_or_le other (change * microsPerSecond) with hless | hmore
      · rw [hearly other hless] at hother
        omega
      · omega
    · -- the time is shown from the change on, and only then
      rw [if_neg hcovered]
      have hsince : ∀ other, (upTo change offset later).clock other = wall →
          change * microsPerSecond ≤ other := by
        intro other hother
        refine Int.not_lt.1 fun hless => ?_
        rw [hearly other hless] at hother
        unfold microsPerSecond at *
        omega
      have hinstant := hsince instant hshows
      obtain ⟨hfound, hfirst⟩ := ih hlater ((hlate instant hinstant).symm.trans hshows)
      have hpast : change * microsPerSecond ≤
          wall - later.offsetAt (yearOf wall) wall * microsPerSecond := by
        refine Int.not_lt.1 fun hless => ?_
        have hshort := hbefore _ hless
        rw [hfound] at hshort
        exact hcovered hshort
      refine ⟨(hlate _ hpast).trans hfound, fun other hother => ?_⟩
      exact hfirst other ((hlate other (hsince other hother)).symm.trans hother)

end Zone

/-! ## Rules of the year -/

theorem Date.monthLength_ge (year month : Nat) : 28 ≤ monthLength year month := by
  unfold monthLength
  split
  · split <;> omega
  · split <;> omega

/-- A weekday of a week of a month lies in the month. -/
theorem Week.day_bounds (week : Week) (weekday year month : Nat) :
    Date.toDay ⟨year, month, 1⟩ ≤ week.day weekday year month ∧
      week.day weekday year month < Date.toDay ⟨year, month, 1⟩ + Date.monthLength year month := by
  have hlength := Date.monthLength_ge year month
  unfold day
  dsimp only
  generalize Date.toDay ⟨year, month, 1⟩ = start
  have hsoonest := Nat.mod_lt (weekday + 7 - Date.weekday start) (show 0 < 7 by decide)
  generalize (weekday + 7 - Date.weekday start) % 7 = wait at hsoonest
  cases week <;> dsimp only <;> omega

namespace YearlyChange

/-- A yearly change from February to November, at most a week away from its day. -/
structure IsSettled (change : YearlyChange) : Prop where
  month : 2 ≤ change.month ∧ change.month ≤ 11
  second : -604800 ≤ change.second ∧ change.second ≤ 604800

variable {change other : YearlyChange}

/-- The wall-clock time of a change is at most a week away from its month. -/
theorem IsSettled.wall_bounds (h : change.IsSettled) (year : Nat) :
    yearStart year + (Date.daysBeforeMonth year change.month - 7 : Int) * microsPerDay ≤
        change.wall year ∧
      change.wall year < yearStart year +
        (Date.daysBeforeMonth year (change.month + 1) + 7 : Int) * microsPerDay := by
  obtain ⟨hlow, hhigh⟩ := change.week.day_bounds change.weekday year change.month
  obtain ⟨⟨hmonth, -⟩, hsecond⟩ := h
  have hnext := Date.daysBeforeMonth_succ year (Nat.le_of_succ_le hmonth)
  have hstart : Date.toDay ⟨year, change.month, 1⟩ =
      Date.daysBeforeYear year + Date.daysBeforeMonth year change.month := rfl
  rw [hstart] at hlow hhigh
  unfold wall yearStart microsPerDay microsPerSecond
  omega

theorem IsSettled.isInner (h : change.IsSettled) : change.IsInner := by
  intro year hyear
  obtain ⟨hlow, hhigh⟩ := h.wall_bounds year
  have hfirst := Date.daysBeforeMonth_mono year (by decide) h.month.1
  have hlast := Date.daysBeforeMonth_mono year (Nat.le_add_left 1 _)
    (show change.month + 1 ≤ 12 from Nat.succ_le_succ h.month.2)
  have hjanuary : Date.daysBeforeMonth year 2 = 31 := rfl
  have hdecember : Date.daysBeforeMonth year 13 = Date.daysBeforeMonth year 12 + 31 := rfl
  have hmonths := Date.daysBeforeMonth_thirteen year
  have hlength := Date.daysBeforeYear_succ hyear
  unfold yearStart microsPerDay microsPerSecond at *
  omega

/-- A change comes after another one if a whole month lies between theirs. -/
theorem IsSettled.wall_lt_wall (h : change.IsSettled) (hother : other.IsSettled)
    (hapart : change.month + 2 ≤ other.month) (year : Nat) :
    change.wall year + microsPerDay ≤ other.wall year := by
  have hhigh := (h.wall_bounds year).2
  have hlow := (hother.wall_bounds year).1
  have hbetween := Date.daysBeforeMonth_succ year (Nat.le_add_left 1 change.month)
  have hlength := Date.monthLength_ge year (change.month + 1)
  have hmono := Date.daysBeforeMonth_mono year (Nat.le_add_left 1 (change.month + 1)) hapart
  unfold microsPerDay microsPerSecond at *
  omega

end YearlyChange

namespace Zone

theorem isRegular_daylight {standard saving : Int} {forward back : YearlyChange}
    (hnear : -86400 < standard ∧ 0 < saving ∧ standard + saving < 86400 ∧ saving ≤ 86400)
    (hforward : forward.IsSettled) (hback : back.IsSettled)
    (hapart : forward.month + 2 ≤ back.month ∨ back.month + 2 ≤ forward.month) :
    (daylight standard saving forward back).IsRegular := by
  obtain ⟨hlow, hsaving, hhigh, hday⟩ := hnear
  refine ⟨⟨hlow, hsaving, hhigh⟩, ⟨hforward.isInner, hback.isInner⟩, ?_⟩
  apply hapart.imp
  · intro hmonths year _
    have := hforward.wall_lt_wall hback hmonths year
    unfold microsPerDay microsPerSecond at *
    omega
  · intro hmonths year _
    have := hback.wall_lt_wall hforward hmonths year
    unfold microsPerDay microsPerSecond at *
    omega

/-- If the zones of a database are regular, so are those that are known by name with it. -/
theorem isRegular_of_namedIn {database : Database}
    (hzones : ∀ name zone, database name = .ok zone → zone.IsRegular) {name : Text.Wide}
    {zone : Zone} (h : namedIn database name = .ok zone) : zone.IsRegular := by
  unfold namedIn at h
  split at h
  · cases h
    trivial
  · exact hzones name zone h

end Zone

end RateLedger.Time
