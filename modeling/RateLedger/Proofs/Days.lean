import RateLedger.Proofs.Dates

/-!
# Days, dates and years

Every day number is the number of one date. Cycles of 400, 100, 4 and one years lead to the year
that the day lies in (`yearOfDay_bounds`), and its months to the month and the day of the month
(`monthAndDay_spec`), so the date of a day has the day's number (`toDay_ofDay`) and is in the
calendar up to the year 9999 (`isValid_ofDay`). The date and the second of the day that a clock
shows together make up its wall-clock time again (`wallOf_date`).
-/

namespace RateLedger.Time

namespace Date

/-- A day lies in its year: the rest that the cycles leave is less than the length of the year. -/
theorem yearOfDay_bounds (day : Nat) :
    daysBeforeYear (yearOfDay day) ≤ day ∧ day < daysBeforeYear (yearOfDay day + 1) := by
  have hrest := Nat.mod_lt day (show 0 < 146097 by decide)
  have hsplit := Nat.div_add_mod day 146097
  unfold yearOfDay
  dsimp only
  generalize day / 146097 = cycle at *
  generalize day % 146097 = inCycle at *
  have hhundreds : min (inCycle / 36524) 3 ≤ 3 := Nat.min_le_right _ _
  have hbegun : min (inCycle / 36524) 3 * 36524 ≤ inCycle := by omega
  -- the last hundred of a cycle has a day more than the others
  have hinHundred : inCycle - min (inCycle / 36524) 3 * 36524 <
      36524 + if min (inCycle / 36524) 3 = 3 then 1 else 0 := by
    split <;> omega
  generalize min (inCycle / 36524) 3 = hundreds at *
  generalize hleft : inCycle - hundreds * 36524 = inHundred at *
  have hfours : inHundred / 1461 ≤ 24 := by
    split at hinHundred <;> omega
  have hfourSplit := Nat.div_add_mod inHundred 1461
  have hinFour := Nat.mod_lt inHundred (show 0 < 1461 by decide)
  generalize inHundred / 1461 = fours at *
  generalize inHundred % 1461 = inFour at *
  have hones : min (inFour / 365) 3 ≤ 3 := Nat.min_le_right _ _
  suffices h : ∀ year, year = cycle * 400 + hundreds * 100 + fours * 4 + min (inFour / 365) 3 + 1 →
      daysBeforeYear year ≤ day ∧ day < daysBeforeYear (year + 1) from h _ rfl
  intro year hyear
  have hstart : daysBeforeYear year =
      cycle * 146097 + hundreds * 36524 + fours * 1461 + min (inFour / 365) 3 * 365 := by
    rw [hyear]
    exact daysBeforeYear_cycles hhundreds hfours hones
  rw [daysBeforeYear_succ (by omega), hstart]
  by_cases hlast : inFour = 1460
  · -- only the last day of four years comes after 365 days of a year, which is a leap year
    have hleap : isLeap year = true := by
      rw [isLeap_iff]
      split at hinHundred <;> omega
    rw [if_pos hleap]
    omega
  · split <;> omega

theorem yearOfDay_pos (day : Nat) : 1 ≤ yearOfDay day := Nat.le_add_left 1 _

theorem daysBeforeYear_mono {year later : Nat} (h : year ≤ later) :
    daysBeforeYear year ≤ daysBeforeYear later := by
  induction h with
  | refl => exact Nat.le_refl _
  | @step later _ ih =>
    rcases Nat.eq_zero_or_pos later with rfl | hpos
    · exact ih
    · rw [daysBeforeYear_succ hpos]
      omega

/-- Earlier days lie in earlier years. -/
theorem yearOfDay_lt_iff {day year : Nat} :
    yearOfDay day < year ↔ day < daysBeforeYear year := by
  obtain ⟨hstart, hend⟩ := yearOfDay_bounds day
  constructor
  · intro h
    exact Nat.lt_of_lt_of_le hend (daysBeforeYear_mono h)
  · intro h
    refine Nat.lt_of_not_le fun hle => ?_
    have := daysBeforeYear_mono hle
    omega

/-- Looking for a month from one on whose year has days enough left finds the month and the day
of the month, which make up the day of the year. -/
theorem monthAndDay_spec (year : Nat) {monthsLeft month left : Nat} (hmonth : 1 ≤ month)
    (h : daysBeforeMonth year month + left < daysBeforeMonth year (month + monthsLeft + 1)) :
    let found := monthAndDay year monthsLeft month left
    (month ≤ found.1 ∧ found.1 ≤ month + monthsLeft) ∧
      (1 ≤ found.2 ∧ found.2 ≤ monthLength year found.1) ∧
      daysBeforeMonth year found.1 + (found.2 - 1) = daysBeforeMonth year month + left := by
  induction monthsLeft generalizing month left with
  | zero =>
    rw [Nat.add_zero, daysBeforeMonth_succ year hmonth] at h
    dsimp only [monthAndDay]
    omega
  | succ monthsLeft ih =>
    unfold monthAndDay
    by_cases hfits : left < monthLength year month
    · rw [if_pos hfits]
      dsimp only
      omega
    · rw [if_neg hfits]
      have hsucc := daysBeforeMonth_succ year hmonth
      have hnext : month + 1 + monthsLeft + 1 = month + (monthsLeft + 1) + 1 := by omega
      rw [← hnext] at h
      have hmore := @ih (month + 1) (left - monthLength year month) (by omega) (by omega)
      dsimp only at hmore ⊢
      omega

section

variable (day : Nat)

/-- The month and the day of the month of a day, in its year. -/
theorem ofDay_spec :
    (1 ≤ (ofDay day).month ∧ (ofDay day).month ≤ 12) ∧
      (1 ≤ (ofDay day).day ∧ (ofDay day).day ≤ monthLength (yearOfDay day) (ofDay day).month) ∧
      daysBeforeMonth (yearOfDay day) (ofDay day).month + ((ofDay day).day - 1) =
        day - daysBeforeYear (yearOfDay day) := by
  obtain ⟨hstart, hend⟩ := yearOfDay_bounds day
  have hlength := daysBeforeYear_succ (yearOfDay_pos day)
  have hmonths := daysBeforeMonth_thirteen (yearOfDay day)
  have hfirst : daysBeforeMonth (yearOfDay day) 1 = 0 := rfl
  have hspec := monthAndDay_spec (yearOfDay day) (Nat.le_refl 1)
    (show daysBeforeMonth (yearOfDay day) 1 + (day - daysBeforeYear (yearOfDay day)) <
      daysBeforeMonth (yearOfDay day) (1 + 11 + 1) by
        rw [hmonths, hfirst]
        omega)
  dsimp only at hspec
  rw [hfirst, Nat.zero_add] at hspec
  exact hspec

theorem toDay_ofDay : (ofDay day).toDay = day := by
  have hstart := (yearOfDay_bounds day).1
  obtain ⟨-, -, hday⟩ := ofDay_spec day
  unfold toDay
  rw [show (ofDay day).year = yearOfDay day from rfl, Nat.add_assoc, hday]
  omega

theorem isValid_ofDay {day : Nat} (h : day < daysBeforeYear 10000) :
    (ofDay day).isValid = true := by
  obtain ⟨hmonth, hday, -⟩ := ofDay_spec day
  have hyear : yearOfDay day < 10000 := yearOfDay_lt_iff.2 h
  have hpos := yearOfDay_pos day
  unfold isValid
  rw [show (ofDay day).year = yearOfDay day from rfl]
  simp only [Bool.and_eq_true, decide_eq_true_eq]
  omega

end

end Date

namespace DateTime

variable (d : DateTime)

theorem isValid_date : d.date.isValid = true := by
  have hlast : Date.daysBeforeYear 10000 = 3652059 := rfl
  have hepoch : epochDay = 719162 := rfl
  have hupper := d.upper
  apply Date.isValid_ofDay
  unfold sinceYearOne
  unfold maxWall maxSecond microsPerSecond at hupper
  unfold minWall microsPerDay microsPerSecond
  omega

theorem secondOfDay_lt : d.secondOfDay < 86400 := Nat.mod_lt _ (by decide)

/-- A wall-clock time is put together from the date, the second of the day and the microseconds. -/
theorem wallOf_date : wallOf d.date d.secondOfDay + d.microsecond = d.wall := by
  have hepoch : epochDay = 719162 := rfl
  have hlower := d.lower
  have hday : d.date.toDay = d.sinceYearOne / 86400000000 := Date.toDay_ofDay _
  unfold wallOf
  rw [hday]
  unfold secondOfDay microsecond sinceYearOne
  unfold minWall microsPerDay microsPerSecond at *
  omega

end DateTime

end RateLedger.Time
