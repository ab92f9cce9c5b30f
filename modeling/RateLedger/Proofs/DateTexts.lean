import Mathlib.Tactic.IntervalCases
import RateLedger.Proofs.Days
import RateLedger.Time.Iso

/-!
# Dates written out

A date of the calendar is written with four digits for the year and two for the month and the day,
and a second of the day with two digits each for hours, minutes and seconds. What is written so is
read back by the reader of a vendor's dates (`read?_ofClock`), which takes a date alone for the
start of that day (`read?_ofDay`).
-/

namespace RateLedger

open Number (Decimal.padded)

namespace Text.Digit

theorem value?_digit {d : Nat} (h : d < 10) : value? (Char.ofNat (48 + d)) = some d := by
  interval_cases d <;> rfl

/-- The last digits of a number are read as what is left of it. -/
theorem mapM_padded (width n : Nat) :
    ∃ ds, (Decimal.padded width n).mapM value? = some ds ∧ number ds = n % 10 ^ width := by
  induction width generalizing n with
  | zero => exact ⟨[], rfl, by simp [number, Nat.mod_one]⟩
  | succ width ih =>
    obtain ⟨ds, hread, hnumber⟩ := ih (n / 10)
    have hlast := value?_digit (Nat.mod_lt n (show 0 < 10 by decide))
    refine ⟨ds ++ [n % 10], ?_, ?_⟩
    · simp [Decimal.padded, List.mapM_append, hread, hlast]
    · rw [number_append_singleton, hnumber, Nat.pow_succ, Nat.mul_comm (10 ^ width) 10,
        Nat.mod_mul]
      omega

/-- No digit is a colon. -/
theorem colon_notMem_padded (width n : Nat) : ':' ∉ Decimal.padded width n := by
  induction width generalizing n with
  | zero => exact List.not_mem_nil
  | succ width ih =>
    have hlast : ':' ≠ Char.ofNat (48 + n % 10) := by
      have hdigit := Nat.mod_lt n (show 0 < 10 by decide)
      generalize n % 10 = d at hdigit
      interval_cases d <;> decide
    simp [Decimal.padded, ih, hlast]

end Text.Digit

namespace Time.DateText

/-- A date written out. -/
def ofDay (date : Date) : String := String.ofList (Iso.day date)

/-- A date and a second of the day written out, with a space between them. -/
def ofClock (date : Date) (second : Nat) : String :=
  String.ofList (Iso.day date ++ ' ' :: Iso.clock second)

/-! ## Fields written out -/

section

variable {n : Nat} (rest : List Char)

theorem year?_padded (h : n < 10000) :
    year? (Decimal.padded 4 n ++ rest) = some (n, rest) := by
  obtain ⟨ds, hread, hnumber⟩ := Text.Digit.mapM_padded 4 n
  have hsmall : n % 10 ^ 4 = n := Nat.mod_eq_of_lt h
  rw [hsmall] at hnumber
  have hyear : year? (Decimal.padded 4 n ++ rest) =
      ((Decimal.padded 4 n).mapM Text.Digit.value?).map fun ds =>
        (Text.Digit.number ds, rest) := rfl
  rw [hyear, hread, Option.map_some, hnumber]

theorem month?_padded (hpos : 1 ≤ n) (h : n ≤ 12) :
    month? (Decimal.padded 2 n ++ rest) = some (n, rest) := by
  interval_cases n <;> rfl

theorem day?_padded (hpos : 1 ≤ n) (h : n ≤ 31) :
    day? (Decimal.padded 2 n ++ rest) = some (n, rest) := by
  interval_cases n <;> rfl

theorem hour?_padded (h : n < 24) : hour? (Decimal.padded 2 n ++ rest) = some (n, rest) := by
  interval_cases n <;> rfl

theorem minute?_padded (h : n < 60) : minute? (Decimal.padded 2 n ++ rest) = some (n, rest) := by
  interval_cases n <;> rfl

theorem second?_padded (h : n < 60) : second? (Decimal.padded 2 n ++ rest) = some (n, rest) := by
  interval_cases n <;> rfl

end

/-! ## Whole texts -/

theorem date?_day {date : Date} (h : date.isValid = true) (rest : List Char) :
    date? (Iso.day date ++ rest) = some (date, rest) := by
  unfold Date.isValid at h
  simp only [Bool.and_eq_true, decide_eq_true_eq] at h
  obtain ⟨⟨⟨⟨⟨-, hyear⟩, hmonth⟩, htwelve⟩, hday⟩, hlength⟩ := h
  have hlong := Date.monthLength_le date.year date.month
  unfold date? Iso.day
  simp only [List.append_assoc, List.cons_append]
  rw [year?_padded _ (Nat.lt_succ_of_le hyear)]
  simp [after?, month?_padded _ hmonth htwelve, day?_padded _ hday (Nat.le_trans hlength hlong)]

theorem time?_clock {second : Nat} (h : second < 86400) :
    time? (Iso.clock second) = some (second, []) := by
  have hhour : second / 3600 < 24 := by omega
  have hminute : second / 60 % 60 < 60 := Nat.mod_lt _ (by decide)
  have hsecond : second % 60 < 60 := Nat.mod_lt _ (by decide)
  have hlast := second?_padded [] hsecond
  rw [List.append_nil] at hlast
  unfold time? Iso.clock
  simp only [List.append_assoc, List.cons_append]
  rw [hour?_padded _ hhour]
  simp [after?, minute?_padded _ hminute, hlast, hsecond]
  omega

/-- A clock starts with a digit, so nothing of it is skipped. -/
theorem afterBlanks?_clock (second : Nat) :
    afterBlanks? (' ' :: Iso.clock second) = some (Iso.clock second) := by
  have hdigit : Text.Blank.isBlank (Char.ofNat (48 + second / 3600 / 10 % 10)) = false := by
    have hlt := Nat.mod_lt (second / 3600 / 10) (show 0 < 10 by decide)
    generalize second / 3600 / 10 % 10 = d at hlt
    interval_cases d <;> decide
  have hspace : Text.Blank.isBlank ' ' = true := by decide
  simp [afterBlanks?, hspace, Iso.clock, Decimal.padded, hdigit]

theorem read?_ofClock {date : Date} {second : Nat} (hdate : date.isValid = true)
    (hsecond : second < 86400) : read? (ofClock date second) = some (date, second) := by
  have htext : (ofClock date second).toList = Iso.day date ++ ' ' :: Iso.clock second :=
    String.toList_ofList
  have hcolon : (ofClock date second).toList.contains ':' = true := by
    rw [htext]
    simp [Iso.clock]
  unfold read?
  rw [hcolon, htext, date?_day hdate]
  simp [afterBlanks?_clock, time?_clock hsecond, hdate]

theorem read?_ofDay {date : Date} (hdate : date.isValid = true) :
    read? (ofDay date) = some (date, 0) := by
  have htext : (ofDay date).toList = Iso.day date ++ [] := by
    rw [List.append_nil]
    exact String.toList_ofList
  have hcolon : (ofDay date).toList.contains ':' = false := by
    rw [htext]
    simp [Iso.day, Text.Digit.colon_notMem_padded]
  unfold read?
  rw [hcolon, htext, date?_day hdate]
  simp [hdate]

end Time.DateText

end RateLedger
