/-!
# The calendar

Days are counted from 1 January of year 1, which is day 0, in the Gregorian calendar extended to all
years. Main statements: a year has 365 or 366 days (`daysBeforeYear_succ`), and the days before a
year are counted by cycles (`daysBeforeYear_cycles`).
-/

namespace RateLedger.Time

/-- A date of the calendar, months and days counted from one. -/
structure Date where
  year : Nat
  month : Nat
  day : Nat
  deriving DecidableEq, Repr

namespace Date

/-- Whether the year has a 29 February. -/
def isLeap (year : Nat) : Bool := year % 4 == 0 && (year % 100 != 0 || year % 400 == 0)

/-- The number of days in a month. -/
def monthLength (year month : Nat) : Nat :=
  if month = 2 then if isLeap year then 29 else 28
  else if month = 4 ∨ month = 6 ∨ month = 9 ∨ month = 11 then 30
  else 31

/-- The days before a year. -/
def daysBeforeYear (year : Nat) : Nat :=
  let past := year - 1
  past * 365 + past / 4 - past / 100 + past / 400

/-- The days of a year before a month. -/
def daysBeforeMonth (year : Nat) : (month : Nat) → Nat
  | 0 => 0
  | 1 => 0
  | month + 1 => daysBeforeMonth year month + monthLength year month

/-- Whether the date is in the calendar. -/
def isValid (date : Date) : Bool :=
  1 ≤ date.year && date.year ≤ 9999 && 1 ≤ date.month && date.month ≤ 12 && 1 ≤ date.day &&
    date.day ≤ monthLength date.year date.month

/-- The day number of a date. -/
def toDay (date : Date) : Nat :=
  daysBeforeYear date.year + daysBeforeMonth date.year date.month + (date.day - 1)

/-- The year of a day number, by cycles of 400, 100, 4 and one years. The last year of a cycle of
100 or of one year keeps the extra day. -/
def yearOfDay (day : Nat) : Nat :=
  let inCycle := day % 146097
  let hundreds := min (inCycle / 36524) 3
  let inHundred := inCycle - hundreds * 36524
  let ones := min (inHundred % 1461 / 365) 3
  day / 146097 * 400 + hundreds * 100 + inHundred / 1461 * 4 + ones + 1

/-- The month and day of a day of the year, looked for from `month` on. -/
def monthAndDay (year : Nat) : (monthsLeft : Nat) → (month left : Nat) → Nat × Nat
  | 0, month, left => (month, left + 1)
  | monthsLeft + 1, month, left =>
    if left < monthLength year month then (month, left + 1)
    else monthAndDay year monthsLeft (month + 1) (left - monthLength year month)

/-- The date of a day number. -/
def ofDay (day : Nat) : Date :=
  let year := yearOfDay day
  let (month, dayOfMonth) := monthAndDay year 11 1 (day - daysBeforeYear year)
  ⟨year, month, dayOfMonth⟩

/-- The day of the week of a day number, Monday being 0. -/
def weekday (day : Nat) : Nat := day % 7

theorem monthLength_le (year month : Nat) : monthLength year month ≤ 31 := by
  unfold monthLength; repeat' split
  all_goals omega

theorem daysBeforeMonth_succ {month : Nat} (year : Nat) (h : 1 ≤ month) :
    daysBeforeMonth year (month + 1) = daysBeforeMonth year month + monthLength year month := by
  cases month with
  | zero => omega
  | succ n => rfl

theorem isLeap_iff {year : Nat} :
    isLeap year = true ↔ year % 4 = 0 ∧ (year % 100 ≠ 0 ∨ year % 400 = 0) := by
  simp [isLeap]

/-- A year has as many days as its twelve months. -/
theorem daysBeforeYear_succ {year : Nat} (h : 1 ≤ year) :
    daysBeforeYear (year + 1) = daysBeforeYear year + if isLeap year then 366 else 365 := by
  obtain ⟨n, rfl⟩ : ∃ n, year = n + 1 := ⟨year - 1, by omega⟩
  have h4 : (n + 1) / 4 = n / 4 + if (n + 1) % 4 = 0 then 1 else 0 := by split <;> omega
  have h100 : (n + 1) / 100 = n / 100 + if (n + 1) % 100 = 0 then 1 else 0 := by split <;> omega
  have h400 : (n + 1) / 400 = n / 400 + if (n + 1) % 400 = 0 then 1 else 0 := by split <;> omega
  have hle : n / 100 ≤ n / 4 := by omega
  have hif : (if isLeap (n + 1) = true then (366 : Nat) else 365) =
      if (n + 1) % 4 = 0 ∧ ((n + 1) % 100 ≠ 0 ∨ (n + 1) % 400 = 0) then 366 else 365 := by
    simp only [isLeap_iff]
  rw [hif]
  simp only [daysBeforeYear, Nat.add_sub_cancel, h4, h100, h400]
  have d100 : (n + 1) % 100 = 0 → (n + 1) % 4 = 0 := by omega
  have d400 : (n + 1) % 400 = 0 → (n + 1) % 100 = 0 := by omega
  clear h4 h100 h400 hif h
  generalize n / 4 = a at *
  generalize n / 100 = b at *
  generalize n / 400 = c at *
  generalize (n + 1) % 4 = x at *
  generalize (n + 1) % 100 = y at *
  generalize (n + 1) % 400 = z at *
  by_cases hx : x = 0 <;> by_cases hy : y = 0 <;> by_cases hz : z = 0 <;> simp [hx, hy, hz] <;>
    omega

theorem daysBeforeYear_cycles {c h f o : Nat} (hh : h ≤ 3) (hf : f ≤ 24) (ho : o ≤ 3) :
    daysBeforeYear (c * 400 + h * 100 + f * 4 + o + 1) =
      c * 146097 + h * 36524 + f * 1461 + o * 365 := by
  unfold daysBeforeYear
  simp only [Nat.add_sub_cancel]
  have h4 : (c * 400 + h * 100 + f * 4 + o) / 4 = c * 100 + h * 25 + f := by omega
  have h100 : (c * 400 + h * 100 + f * 4 + o) / 100 = c * 4 + h := by omega
  have h400 : (c * 400 + h * 100 + f * 4 + o) / 400 = c := by omega
  omega

end Date

end RateLedger.Time
