import RateLedger.Time.DateText
import RateLedger.Time.Zone

/-!
# What the dates of a vendor can say

A text that is read as a date names a day of the calendar and a second of a day, as each of its
fields is read below a limit of its own (`read?_bounds`). The wall-clock time of these lies in the
years 1 to 9999, so every zone has a reading for it (`Zone.exists_reading`).
-/

namespace RateLedger

theorem Text.Digit.value?_le {c : Char} {d : Nat} (h : value? c = some d) : d ≤ 9 := by
  unfold value? at h
  obtain ⟨start, hfind, rfl⟩ := Option.map_eq_some_iff.1 h
  have hnear := List.find?_some hfind
  simp only [Bool.and_eq_true, decide_eq_true_eq] at hnear
  omega

namespace Time

/-! ## Days of the calendar -/

namespace Date

/-- The months of a year add up to its length. -/
theorem daysBeforeMonth_thirteen (year : Nat) :
    daysBeforeMonth year 13 = if isLeap year then 366 else 365 := by
  cases h : isLeap year <;> simp [daysBeforeMonth, monthLength, h]

theorem daysBeforeMonth_mono (year : Nat) {month later : Nat} (hmonth : 1 ≤ month)
    (h : month ≤ later) : daysBeforeMonth year month ≤ daysBeforeMonth year later := by
  induction h with
  | refl => exact Nat.le_refl _
  | step h ih =>
    rw [Nat.succ_eq_add_one, daysBeforeMonth_succ year (Nat.le_trans hmonth h)]
    omega

/-- A date of the calendar comes before the day after the year 9999. -/
theorem toDay_lt {date : Date} (h : date.isValid = true) :
    date.toDay < daysBeforeYear 10000 := by
  unfold isValid at h
  simp only [Bool.and_eq_true, decide_eq_true_eq] at h
  obtain ⟨⟨⟨⟨⟨hyear, hlast⟩, hmonth⟩, htwelve⟩, hday⟩, hlength⟩ := h
  have hsucc := daysBeforeYear_succ hyear
  have hmonths := daysBeforeMonth_succ date.year hmonth
  have hthirteen : date.month + 1 ≤ 13 := by omega
  have hyear : daysBeforeMonth date.year (date.month + 1) ≤ daysBeforeMonth date.year 13 :=
    daysBeforeMonth_mono date.year (Nat.le_add_left 1 _) hthirteen
  have hnext : daysBeforeYear (date.year + 1) ≤ daysBeforeYear 10000 := by
    simp only [daysBeforeYear]
    omega
  rw [daysBeforeMonth_thirteen] at hyear
  unfold toDay
  omega

end Date

/-- A clock shows every second of every day of the calendar. -/
theorem DateTime.ofWall?_wallOf {date : Date} {second : Nat} (hdate : date.isValid = true)
    (hsecond : second < 86400) (offset : Option Int) :
    ∃ time, ofWall? (wallOf date second) offset = some time := by
  have hday := Date.toDay_lt hdate
  have hlast : Date.daysBeforeYear 10000 = 3652059 := rfl
  have hepoch : epochDay = 719162 := rfl
  cases h : ofWall? (wallOf date second) offset with
  | some time => exact ⟨time, rfl⟩
  | none =>
    rw [ofWall?_eq_none_iff] at h
    unfold wallOf minWall maxWall maxSecond microsPerDay microsPerSecond at h
    omega

/-! ## Times of the day -/

namespace DateText

/-- A field reads numbers below a limit. -/
def Field.IsBelow (field : Field) (limit : Nat) : Prop :=
  ∀ chars n rest, field chars = some (n, rest) → n < limit

theorem Field.IsBelow.mono {field : Field} {limit more : Nat} (h : field.IsBelow limit)
    (hmore : limit ≤ more) : field.IsBelow more :=
  fun chars n rest hread => Nat.lt_of_lt_of_le (h chars n rest hread) hmore

theorem isBelow_firstOf {ways : List Field} {limit : Nat} (h : ∀ way ∈ ways, way.IsBelow limit) :
    Field.IsBelow (firstOf ways) limit := by
  intro chars n rest hread
  obtain ⟨way, hway, hread⟩ := List.exists_of_findSome?_eq_some hread
  exact h way hway chars n rest hread

theorem isBelow_single : Field.IsBelow single? 10 := by
  intro chars n rest hread
  cases chars with
  | nil => cases hread
  | cons c after =>
    obtain ⟨d, hd, heq⟩ := Option.map_eq_some_iff.1 hread
    cases heq
    exact Nat.lt_succ_of_le (Text.Digit.value?_le hd)

theorem isBelow_pair (low high : Char) {limit : Nat} (h : (high.toNat - 48) * 10 + 10 ≤ limit) :
    Field.IsBelow (pair? low high none) limit := by
  intro chars n rest hread
  match chars with
  | [] | [_] => cases hread
  | a :: b :: after =>
    unfold pair? at hread
    dsimp only at hread
    split at hread
    next ha =>
      obtain ⟨d, hd, heq⟩ := Option.map_eq_some_iff.1 hread
      cases heq
      have hunits := Text.Digit.value?_le hd
      have htens : a.toNat ≤ high.toNat := ha.2
      omega
    next => cases hread

theorem isBelow_pair_some (low high top : Char) {limit : Nat}
    (h : (high.toNat - 48) * 10 + (top.toNat - 47) ≤ limit) :
    Field.IsBelow (pair? low high (some top)) limit := by
  intro chars n rest hread
  match chars with
  | [] | [_] => cases hread
  | a :: b :: after =>
    unfold pair? at hread
    dsimp only at hread
    split at hread
    next ha =>
      split at hread
      next hb =>
        cases hread
        have htens : a.toNat ≤ high.toNat := ha.2
        have hlow : 48 ≤ b.toNat := hb.1
        have hunits : b.toNat ≤ top.toNat := hb.2
        omega
      next => cases hread
    next => cases hread

theorem isBelow_hour : Field.IsBelow hour? 24 := by
  refine isBelow_firstOf fun way hway => ?_
  simp only [List.mem_cons, List.not_mem_nil, or_false] at hway
  rcases hway with rfl | rfl | rfl
  · exact isBelow_pair_some '2' '2' '3' (by decide)
  · exact isBelow_pair '0' '1' (by decide)
  · exact isBelow_single.mono (by decide)

theorem isBelow_minute : Field.IsBelow minute? 60 := by
  refine isBelow_firstOf fun way hway => ?_
  simp only [List.mem_cons, List.not_mem_nil, or_false] at hway
  rcases hway with rfl | rfl
  · exact isBelow_pair '0' '5' (by decide)
  · exact isBelow_single.mono (by decide)

theorem time?_lt {chars rest : List Char} {second : Nat} (h : time? chars = some (second, rest)) :
    second < 86400 := by
  unfold time? at h
  simp only [Option.bind_eq_bind, Option.bind_eq_some_iff, Prod.exists] at h
  obtain ⟨hour, _, hhour, _, _, minute, _, hminute, _, _, left, _, -, hleft⟩ := h
  have hhours := isBelow_hour _ _ _ hhour
  have hminutes := isBelow_minute _ _ _ hminute
  split at hleft
  · cases hleft
    omega
  · cases hleft

/-- A text says a date of the calendar and a second of a day. -/
theorem read?_bounds {text : String} {date : Date} {second : Nat}
    (h : read? text = some (date, second)) : date.isValid = true ∧ second < 86400 := by
  unfold read? at h
  simp only [Option.bind_eq_bind, Option.bind_eq_some_iff, Prod.exists] at h
  obtain ⟨found, rest, -, h⟩ := h
  split at h
  · simp only [Option.bind_eq_some_iff, Prod.exists] at h
    obtain ⟨_, -, seconds, left, htime, hwhole⟩ := h
    split at hwhole
    next hvalid =>
      cases hwhole
      exact ⟨(Bool.and_eq_true_iff.1 hvalid).2, time?_lt htime⟩
    next => cases hwhole
  · simp only [Option.pure_def, Option.bind_some] at h
    split at h
    next hvalid =>
      cases h
      exact ⟨(Bool.and_eq_true_iff.1 hvalid).2, by decide⟩
    next => cases h

end DateText

/-- What a date text says is read in every zone, and the reading means the instant that lies the
distance of the zone before the time on its clock. -/
theorem Zone.exists_reading {text : String} {date : Date} {second : Nat}
    (h : DateText.read? text = some (date, second)) (zone : Zone) :
    ∃ time, zone.reading? date second = some time ∧ time.instant =
      DateTime.wallOf date second -
        zone.offsetAt date.year (DateTime.wallOf date second) * microsPerSecond := by
  obtain ⟨hdate, hsecond⟩ := DateText.read?_bounds h
  obtain ⟨time, htime⟩ := DateTime.ofWall?_wallOf hdate hsecond
    (some (zone.offsetAt date.year (DateTime.wallOf date second) * microsPerSecond))
  obtain ⟨hwall, hoffset⟩ := DateTime.ofWall?_eq_some_iff.1 htime
  refine ⟨time, htime, ?_⟩
  unfold DateTime.instant
  rw [hwall, hoffset]
  rfl

end Time

end RateLedger
