import Mathlib.Tactic.Ring
import RateLedger.Bytes
import RateLedger.Proofs.KeyOrder
import RateLedger.Time.DateTime

/-!
# Rounding, and the seconds of clock readings

Rounding to a whole number never crosses a whole number, so rounding to a double never crosses a
multiple of the last place, and below `2 ^ 53` every whole number is such a multiple. So the double
nearest to a quotient has the whole part of the quotient, or the next one when it rounds up to it.
That bounds the second of every reading of a clock, and keeps its key apart from identity keys. At
the other end, a whole number has no finite double near it from half a last place beyond the
greatest one on (`ofInt?_eq_none_iff`).
-/

namespace RateLedger

open Number (twoTo)

theorem le_roundHalfEven {m num den : Nat} (hden : 0 < den) (h : m * den ≤ num) :
    m ≤ roundHalfEven num den := by
  have hm : m ≤ num / den := (Nat.le_div_iff_mul_le hden).2 h
  unfold roundHalfEven
  dsimp only
  split
  · exact hm
  · split <;> omega

theorem roundHalfEven_le {m num den : Nat} (hden : 0 < den) (h : num ≤ m * den) :
    roundHalfEven num den ≤ m := by
  have hm : num / den ≤ m := Nat.div_le_of_le_mul (by rwa [Nat.mul_comm])
  have hsplit := Nat.div_add_mod num den
  unfold roundHalfEven
  dsimp only
  rcases Nat.eq_or_lt_of_le hm with heq | hlt
  · -- The quotient is whole, so nothing is rounded.
    have hrest : num % den = 0 := by
      rw [heq, Nat.mul_comm] at hsplit
      omega
    rw [if_pos (by omega)]
    exact hm
  · split
    · exact hm
    · split <;> omega

/-- A half is rounded up from an odd number. -/
theorem lt_roundHalfEven_iff {m num den : Nat} (hden : 0 < den) (hodd : m % 2 = 1) :
    m < roundHalfEven num den ↔ (2 * m + 1) * den ≤ 2 * num := by
  have hsplit := Nat.div_add_mod num den
  have hrest := Nat.mod_lt num hden
  unfold roundHalfEven
  dsimp only
  generalize num / den = quotient at *
  generalize num % den = rest at *
  subst hsplit
  rw [Nat.add_one_mul (2 * m), Nat.mul_assoc 2 m, Nat.mul_comm den]
  rcases Nat.lt_trichotomy quotient m with hlt | rfl | hgt
  · have hle : (quotient + 1) * den ≤ m * den := Nat.mul_le_mul_right _ hlt
    rw [Nat.add_one_mul] at hle
    split <;> [skip; split] <;> omega
  · split <;> [skip; split] <;> omega
  · have hle : (m + 1) * den ≤ quotient * den := Nat.mul_le_mul_right _ hgt
    rw [Nat.add_one_mul] at hle
    split <;> [skip; split] <;> omega

namespace Number

theorem twoTo_add (m n : Nat) : twoTo (m + n) = twoTo m * twoTo n := Nat.pow_add 2 m n

theorem twoTo_lt_twoTo_iff {m n : Nat} : twoTo m < twoTo n ↔ m < n :=
  Nat.pow_lt_pow_iff_right (by decide)

theorem twoTo_le_twoTo {m n : Nat} (h : m ≤ n) : twoTo m ≤ twoTo n :=
  Nat.pow_le_pow_right (by decide) h

end Number

namespace Binary64

/-- The magnitude that a significand and a shift stand for. -/
theorem units_signed (negative : Bool) {shift significand : Nat} (hshift : shift ≤ 2044)
    (hle : significand ≤ twoTo 53) (hge : shift = 0 ∨ twoTo 52 ≤ significand) :
    (signed negative (shift * twoTo 52 + significand)).units = significand * twoTo shift := by
  have h52 : twoTo 52 = 4503599627370496 := rfl
  have h53 : twoTo 53 = 4503599627370496 * 2 := rfl
  rw [h53] at hle
  rw [h52] at hge ⊢
  have hword : ∀ top, top = 0 ∨ top = 9223372036854775808 →
      (ofWord (top + (shift * 4503599627370496 + significand))).units =
        significand * twoTo shift := by
    intro top htop
    have h64 : twoTo 64 = 18446744073709551616 := rfl
    have h11 : twoTo 11 = 2048 := rfl
    unfold units exponent fraction
    rw [word_ofWord (by omega), h52, h11]
    generalize hwide : top + (shift * 4503599627370496 + significand) = wide
    rcases Nat.lt_or_ge significand 4503599627370496 with hsmall | hnormal
    · obtain rfl : shift = 0 := by omega
      rw [if_pos (by omega), show twoTo 0 = 1 from rfl]
      omega
    · rcases Nat.eq_or_lt_of_le hle with hcarry | hfits
      · -- The significand has been rounded up to the next exponent.
        have hexponent : wide / 4503599627370496 % 2048 = shift + 1 + 1 := by omega
        have hfraction : wide % 4503599627370496 = 0 := by omega
        rw [hexponent, hfraction, if_neg (Nat.succ_ne_zero _), hcarry, Nat.add_sub_cancel,
          Number.twoTo_succ]
        ring
      · have hexponent : wide / 4503599627370496 % 2048 = shift + 1 := by omega
        have hfraction : wide % 4503599627370496 + 4503599627370496 = significand := by omega
        rw [hexponent, hfraction, if_neg (Nat.succ_ne_zero _), Nat.add_sub_cancel]
  cases negative with
  | false => simpa [signed] using hword 0 (.inl rfl)
  | true => simpa [signed] using hword (twoTo 63) (.inr rfl)

/-- The shift of a quotient leaves it 53 binary digits, or is zero where it has fewer. -/
theorem shift_bounds (quotient : Nat) :
    (quotient.log2 - 52 = 0 ∨ twoTo (quotient.log2 - 52 + 52) ≤ quotient) ∧
      quotient < twoTo (quotient.log2 - 52) * twoTo 53 := by
  constructor
  · rcases Nat.eq_zero_or_pos (quotient.log2 - 52) with hzero | hpos
    · exact .inl hzero
    · have hne : quotient ≠ 0 := by
        intro h0
        simp [h0] at hpos
      rw [Nat.sub_add_cancel (by omega)]
      exact .inr (Nat.log2_self_le hne)
  · rw [← Number.twoTo_add]
    apply Nat.lt_of_lt_of_le Nat.lt_log2_self
    exact Number.twoTo_le_twoTo (by omega)

/-- The magnitude of the number nearest to a quotient of units: the quotient, rounded to a multiple
of a power of two, which is one unless the quotient has more than 53 binary digits. -/
theorem units_ofUnits (negative : Bool) {num den : Nat} (hden : 0 < den)
    (h : num / den < twoTo 2097) :
    ∃ shift, (shift = 0 ∨ twoTo (shift + 52) ≤ num / den) ∧
      (ofUnits negative num den).units =
        roundHalfEven num (den * twoTo shift) * twoTo shift := by
  obtain ⟨hlow, hhigh⟩ := shift_bounds (num / den)
  have hsmall : (num / den).log2 - 52 ≤ 2044 := by
    rcases hlow with hzero | hle
    · omega
    · have := Number.twoTo_lt_twoTo_iff.1 (Nat.lt_of_le_of_lt hle h)
      omega
  unfold ofUnits nearestWord
  dsimp only
  generalize (num / den).log2 - 52 = shift at hlow hhigh hsmall
  refine ⟨shift, hlow, ?_⟩
  have hstep : 0 < den * twoTo shift := Nat.mul_pos hden (Number.twoTo_pos _)
  have hle : roundHalfEven num (den * twoTo shift) ≤ twoTo 53 := by
    apply roundHalfEven_le hstep (Nat.le_of_lt _)
    calc num < twoTo shift * twoTo 53 * den := (Nat.div_lt_iff_lt_mul hden).1 hhigh
      _ = twoTo 53 * (den * twoTo shift) := by ring
  have hge : shift = 0 ∨ twoTo 52 ≤ roundHalfEven num (den * twoTo shift) := by
    apply hlow.imp_right
    intro hlow
    apply le_roundHalfEven hstep
    rw [Nat.le_div_iff_mul_le hden, Nat.add_comm, Number.twoTo_add] at hlow
    calc twoTo 52 * (den * twoTo shift)
        = twoTo 52 * twoTo shift * den := by ring
      _ ≤ num := hlow
  have hfinite : shift * twoTo 52 + roundHalfEven num (den * twoTo shift) ≤ infinityWord := by
    have h52 : twoTo 52 = 4503599627370496 := rfl
    have h53 : twoTo 53 = 4503599627370496 * 2 := rfl
    rw [h53] at hle
    unfold infinityWord
    rw [h52]
    omega
  rw [Nat.min_eq_left hfinite, units_signed negative hsmall hle hge]

/-- Rounding to a last place of which one is a multiple keeps the whole part of a quotient, or goes
to the next whole number. -/
theorem whole_roundHalfEven {num den scale step whole : Nat} (hden : 0 < den) (hscale : 0 < scale)
    (hstep : 0 < step) (hfloor : whole * den ≤ num) (hceil : num ≤ (whole + 1) * den) :
    roundHalfEven (num * (scale * step)) (den * step) / scale = whole ∨
      roundHalfEven (num * (scale * step)) (den * step) / scale = whole + 1 := by
  have hpos : 0 < den * step := Nat.mul_pos hden hstep
  have hge : whole * scale ≤ roundHalfEven (num * (scale * step)) (den * step) := by
    apply le_roundHalfEven hpos
    calc whole * scale * (den * step)
        = whole * den * (scale * step) := by ring
      _ ≤ num * (scale * step) := Nat.mul_le_mul_right _ hfloor
  have hle : roundHalfEven (num * (scale * step)) (den * step) ≤ (whole + 1) * scale := by
    apply roundHalfEven_le hpos
    calc num * (scale * step)
        ≤ (whole + 1) * den * (scale * step) := Nat.mul_le_mul_right _ hceil
      _ = (whole + 1) * scale * (den * step) := by ring
  generalize roundHalfEven (num * (scale * step)) (den * step) = rounded at hge hle
  have hlow : whole ≤ rounded / scale := (Nat.le_div_iff_mul_le hscale).2 hge
  have hhigh : rounded / scale ≤ whole + 1 := Nat.div_le_of_le_mul (Nat.mul_comm _ _ ▸ hle)
  omega

/-- A quotient below `2 ^ digits` is rounded to at least as many binary places as there are left. -/
theorem units_ofRatio (negative : Bool) (num : Nat) {den digits : Nat} (hden : 0 < den)
    (hdigits : digits ≤ 53) (h : num / den < twoTo digits) :
    ∃ places step, 53 - digits ≤ places ∧ 0 < step ∧ one = twoTo places * step ∧
      (ofRatio negative num den).units = roundHalfEven (num * one) (den * step) * step := by
  have hone : 0 < one := Number.twoTo_pos _
  have hbound : num * one / den < twoTo (digits + 1074) := by
    rw [Number.twoTo_add, ← one, Nat.div_lt_iff_lt_mul hden]
    calc num * one < twoTo digits * den * one :=
          Nat.mul_lt_mul_of_pos_right ((Nat.div_lt_iff_lt_mul hden).1 h) hone
      _ = twoTo digits * one * den := by ring
  obtain ⟨shift, hshift, hround⟩ := units_ofUnits negative hden
    (Nat.lt_trans hbound (Number.twoTo_lt_twoTo_iff.2 (by omega)))
  have hfine : shift ≤ 1074 ∧ 53 - digits ≤ 1074 - shift := by
    rcases hshift with rfl | hlow
    · omega
    · have := Number.twoTo_lt_twoTo_iff.1 (Nat.lt_of_le_of_lt hlow hbound)
      omega
  refine ⟨1074 - shift, twoTo shift, hfine.2, Number.twoTo_pos shift, ?_, hround⟩
  rw [← Number.twoTo_add, Nat.sub_add_cancel hfine.1, one]

/-- Below `2 ^ 53` rounding keeps the whole part of a quotient, or goes to the next whole number. -/
theorem whole_ofRatio (negative : Bool) (num : Nat) {den : Nat} (hden : 0 < den)
    (h : num / den < twoTo 53) :
    (ofRatio negative num den).units / one = num / den ∨
      (ofRatio negative num den).units / one = num / den + 1 := by
  have hfloor : num / den * den ≤ num := Nat.div_mul_le_self num den
  have hceil : num < (num / den + 1) * den := by
    rw [Nat.add_one_mul]
    exact Nat.lt_div_mul_add hden
  obtain ⟨places, step, -, hstep, hone, hround⟩ := units_ofRatio negative num hden (Nat.le_refl _) h
  have hwhole := whole_roundHalfEven hden (Number.twoTo_pos places) hstep hfloor
    (Nat.le_of_lt hceil)
  rw [hround, hone, Nat.mul_div_mul_right _ _ hstep]
  exact hwhole

/-- A whole number below `2 ^ 53` is not rounded. -/
theorem whole_ofRatio_mul (negative : Bool) (whole : Nat) {den : Nat} (hden : 0 < den)
    (h : whole < twoTo 53) : (ofRatio negative (whole * den) den).units / one = whole := by
  have hquotient : whole * den / den = whole := Nat.mul_div_cancel whole hden
  obtain ⟨places, step, -, hstep, hone, hround⟩ :=
    units_ofRatio negative (whole * den) hden (Nat.le_refl _) (hquotient.symm ▸ h)
  have hpos : 0 < den * step := Nat.mul_pos hden hstep
  have hnum : whole * den * one = whole * twoTo places * (den * step) := by
    rw [hone]
    ring
  rw [hround, hnum]
  have heq : roundHalfEven (whole * twoTo places * (den * step)) (den * step) =
      whole * twoTo places :=
    Nat.le_antisymm (roundHalfEven_le hpos (Nat.le_refl _)) (le_roundHalfEven hpos (Nat.le_refl _))
  rw [heq, hone, Nat.mul_div_mul_right _ _ hstep, Nat.mul_div_cancel _ (Number.twoTo_pos places)]

/-- A quotient below a whole number stays below it when it is rounded to a last place of
`1 / scale`, if half of that is less than `1 / den`, by which it is below at least. -/
theorem roundHalfEven_lt {num den scale step next : Nat} (hden : 0 < den) (hstep : 0 < step)
    (heven : scale % 2 = 0) (hcoarse : den < 2 * scale) (hceil : num < next * den) :
    roundHalfEven (num * (scale * step)) (den * step) < next * scale := by
  have hnext : 0 < next := by
    rcases Nat.eq_zero_or_pos next with rfl | hpos
    · simp at hceil
    · exact hpos
  have hpos : 0 < next * scale := Nat.mul_pos hnext (by omega)
  -- The multiple of the last place in front of the whole number is odd.
  have hodd : (next * scale - 1) % 2 = 1 := by
    have : next * scale % 2 = 0 := by rw [Nat.mul_mod, heven, Nat.mul_zero]
    omega
  refine Nat.lt_of_not_le fun hup => ?_
  have hreach : next * scale - 1 < roundHalfEven (num * (scale * step)) (den * step) := by omega
  have hhalf := (lt_roundHalfEven_iff (Nat.mul_pos hden hstep) hodd).1 hreach
  have hhalf : (2 * (next * scale) - 1) * den ≤ 2 * num * scale := by
    refine Nat.le_of_mul_le_mul_right ?_ hstep
    calc (2 * (next * scale) - 1) * den * step
        = (2 * (next * scale - 1) + 1) * (den * step) := by
          rw [Nat.mul_assoc, show 2 * (next * scale) - 1 = 2 * (next * scale - 1) + 1 by omega]
      _ ≤ 2 * (num * (scale * step)) := hhalf
      _ = 2 * num * scale * step := by ring
  have hbelow : 2 * num * scale + 2 * scale ≤ 2 * (next * scale) * den := by
    calc 2 * num * scale + 2 * scale = (num + 1) * (2 * scale) := by ring
      _ ≤ next * den * (2 * scale) := Nat.mul_le_mul_right _ hceil
      _ = 2 * (next * scale) * den := by ring
  rw [Nat.sub_one_mul] at hhalf
  omega

/-- A quotient below `2 ^ digits` by less than `2 ^ (54 - digits)` keeps its whole part. -/
theorem whole_ofRatio_eq (negative : Bool) (num : Nat) {den digits : Nat} (hden : 0 < den)
    (hdigits : digits ≤ 52) (hcoarse : den < twoTo (54 - digits)) (h : num / den < twoTo digits) :
    (ofRatio negative num den).units / one = num / den := by
  have hbelow : num / den < twoTo 53 :=
    Nat.lt_of_lt_of_le h (Number.twoTo_le_twoTo (by omega))
  refine (whole_ofRatio negative num hden hbelow).resolve_right fun hup => ?_
  have hceil : num < (num / den + 1) * den := by
    rw [Nat.add_one_mul]
    exact Nat.lt_div_mul_add hden
  obtain ⟨places, step, hplaces, hstep, hone, hround⟩ :=
    units_ofRatio negative num hden (Nat.le_succ_of_le hdigits) h
  obtain ⟨half, rfl⟩ : ∃ half, places = half + 1 := ⟨places - 1, by omega⟩
  have heven : twoTo (half + 1) % 2 = 0 := by
    rw [Number.twoTo_succ]
    exact Nat.mul_mod_left _ _
  have hlast : den < 2 * twoTo (half + 1) := by
    rw [Nat.mul_comm, ← Number.twoTo_succ]
    exact Nat.lt_of_lt_of_le hcoarse (Number.twoTo_le_twoTo (by omega))
  have hless := roundHalfEven_lt hden hstep heven hlast hceil
  rw [hround, hone, Nat.mul_div_mul_right _ _ hstep] at hup
  rw [← hup] at hless
  exact absurd (Nat.div_mul_le_self _ _) (Nat.not_le_of_lt hless)

/-! ## Signs -/

theorem isNegative_signed (negative : Bool) {magnitude : Nat} (h : magnitude ≤ infinityWord) :
    (signed negative magnitude).isNegative = negative := by
  have h52 : twoTo 52 = 4503599627370496 := rfl
  have h63 : twoTo 63 = 9223372036854775808 := rfl
  have h64 : twoTo 64 = 18446744073709551616 := rfl
  unfold infinityWord at h
  unfold isNegative
  rw [h52] at h
  cases negative with
  | false => simp [signed, word_ofWord (show magnitude < twoTo 64 by omega), h63]; omega
  | true => simp [signed, word_ofWord (show twoTo 63 + magnitude < twoTo 64 by omega)]

theorem isNegative_ofRatio (negative : Bool) (num den : Nat) :
    (ofRatio negative num den).isNegative = negative :=
  isNegative_signed negative (Nat.min_le_right _ _)

/-! ## Whole numbers that are too large -/

theorem isFinite_signed_iff (negative : Bool) {magnitude : Nat} (h : magnitude ≤ infinityWord) :
    (signed negative magnitude).isFinite = true ↔ magnitude < infinityWord := by
  have hword : ∀ top, top = 0 ∨ top = twoTo 63 →
      ((ofWord (top + magnitude)).exponent ≠ 2047 ↔ magnitude < infinityWord) := by
    intro top htop
    have h52 : twoTo 52 = 4503599627370496 := rfl
    have h63 : twoTo 63 = 9223372036854775808 := rfl
    have h64 : twoTo 64 = 18446744073709551616 := rfl
    have h11 : twoTo 11 = 2048 := rfl
    unfold infinityWord at h ⊢
    unfold exponent
    rw [h52] at h ⊢
    rw [word_ofWord (by omega), h11]
    omega
  cases negative with
  | false => simpa [signed, isFinite] using hword 0 (.inl rfl)
  | true => simpa [signed, isFinite] using hword (twoTo 63) (.inr rfl)

/-- The word nearest to a whole number of units reaches that of infinity from the middle between the
greatest finite magnitude and the next power of two on. -/
theorem infinityWord_le_nearestWord_iff (units : Nat) :
    infinityWord ≤ nearestWord units 1 ↔ (twoTo 54 - 1) * twoTo 2044 ≤ units := by
  obtain ⟨hlow, hhigh⟩ := shift_bounds units
  have h52 : twoTo 52 = 4503599627370496 := rfl
  have h53 : twoTo 53 = 4503599627370496 * 2 := rfl
  have h54 : twoTo 54 = 4503599627370496 * 4 := rfl
  have htop : twoTo 2045 = twoTo 2044 * 2 := Number.twoTo_succ 2044
  unfold nearestWord infinityWord
  dsimp only
  rw [Nat.div_one, Nat.one_mul]
  generalize units.log2 - 52 = shift at hlow hhigh ⊢
  have hstep := Number.twoTo_pos shift
  have hle : roundHalfEven units (twoTo shift) ≤ twoTo 53 :=
    roundHalfEven_le hstep (by rw [Nat.mul_comm]; exact Nat.le_of_lt hhigh)
  rcases Nat.lt_trichotomy shift 2045 with hless | rfl | hmore
  · -- there are fewer than 2098 binary digits
    have hpow : twoTo shift * 2 ≤ twoTo 2045 := by
      rw [← Number.twoTo_succ]
      exact Number.twoTo_le_twoTo hless
    rw [htop] at hpow
    rw [h53] at hle hhigh
    rw [h52, h54]
    generalize twoTo 2044 = top at hpow ⊢
    omega
  · have hodd : twoTo 53 - 1 < roundHalfEven units (twoTo 2045) ↔ _ :=
      lt_roundHalfEven_iff hstep (by rw [h53])
    generalize roundHalfEven units (twoTo 2045) = rounded at hle hodd ⊢
    rw [htop, h53] at hodd
    rw [h53] at hle
    rw [h52, h54]
    generalize twoTo 2044 = top at hodd ⊢
    omega
  · have hlow := hlow.resolve_left (by omega)
    rw [Nat.add_comm, Number.twoTo_add] at hlow
    have hpow : twoTo 2045 * 2 ≤ twoTo shift := by
      rw [← Number.twoTo_succ]
      exact Number.twoTo_le_twoTo hmore
    have hge := le_roundHalfEven hstep hlow
    rw [htop] at hpow
    rw [h52] at hge hlow
    rw [h52, h54]
    generalize twoTo 2044 = top at hpow ⊢
    omega

/-- A double is near enough to a whole number unless that is at least half a last place beyond the
greatest of them. -/
theorem ofInt?_eq_none_iff {i : Int} :
    ofInt? i = none ↔ (twoTo 54 - 1) * twoTo 970 ≤ i.natAbs := by
  have hword := infinityWord_le_nearestWord_iff (i.natAbs * one)
  have hfinite := isFinite_signed_iff (i < 0) (Nat.min_le_right (nearestWord (i.natAbs * one) 1) _)
  have hone : 0 < one := Number.twoTo_pos _
  have hscale : twoTo 2044 = twoTo 970 * one := by rw [one, ← Number.twoTo_add]
  rw [hscale, ← Nat.mul_assoc, Nat.mul_le_mul_right_iff hone] at hword
  unfold ofInt? ofInt ofRatio ofUnits
  simp only [ite_eq_right_iff, reduceCtorEq, imp_false]
  rw [hfinite, ← hword]
  omega

end Binary64

namespace Time.DateTime

/-- A clock is less than a day away from UTC, if its distance is known. -/
def IsNearUtc (d : DateTime) : Prop :=
  ∀ offset ∈ d.offset, -microsPerDay < offset ∧ offset < microsPerDay

/-- The second of a clock reading has few digits. -/
theorem isModerate_unixSeconds {d : DateTime} (h : d.IsNearUtc) :
    Bytes.IsModerate d.unixSeconds := by
  have h56 : twoTo 56 = 72057594037927936 := rfl
  have h53 : twoTo 53 = 9007199254740992 := rfl
  have hoffset : -microsPerDay < d.offset.getD 0 ∧ d.offset.getD 0 < microsPerDay := by
    cases hd : d.offset with
    | none => decide
    | some offset => exact h offset hd
  have hlow := d.lower
  have hhigh := d.upper
  have hinstant : d.instant.natAbs / 1000000 < 300000000000 := by
    simp only [instant, minWall, maxWall, maxSecond, microsPerDay, microsPerSecond, epochDay,
      show Date.daysBeforeYear 1970 = 719162 from rfl] at hlow hhigh hoffset ⊢
    omega
  have hpos : 0 < 1000000 := by decide
  have hwhole := Binary64.whole_ofRatio (d.instant < 0) d.instant.natAbs hpos (by omega)
  unfold unixSeconds Binary64.truncate Bytes.IsModerate
  generalize (Binary64.ofRatio (d.instant < 0) d.instant.natAbs 1000000).units / Binary64.one =
    whole at hwhole ⊢
  split <;> omega

end Time.DateTime

end RateLedger
