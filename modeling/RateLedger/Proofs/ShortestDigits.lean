import RateLedger.Number.Shortest
import RateLedger.Proofs.Rounding

/-!
# The shortest digits of a double

A finite double is a significand of at most 53 binary digits, shifted. Every decimal number in its
interval is nearest to it: within the binade of the double the significand is the nearest whole
number, and the part of the interval that lies in the binade below is rounded up to a power of two.

A decimal number can be written with more or fewer zeros at its end, so membership in an interval
is stated of digits and an exponent (`Interval.Holds`) and carried over from one way of writing to
the other (`holds_mul_tenTo`). Seventeen digits are enough for every double, since the interval is
wider than the cells of that grid; so the digits that are found read back as the double
(`holds_scaled`, `ofDecimal_eq`).
-/

namespace RateLedger

open Number (twoTo tenTo)

/-- The whole number that a quotient is at most half away from is the nearest one, if it is even
where the distance is a half. -/
theorem roundHalfEven_eq {num den m : Nat} (hlow : 2 * (m * den) ≤ 2 * num + den)
    (hhigh : 2 * num ≤ 2 * (m * den) + den)
    (heven : m % 2 = 0 ∨ 2 * (m * den) < 2 * num + den ∧ 2 * num < 2 * (m * den) + den)
    (hden : 0 < den) : roundHalfEven num den = m := by
  have hsplit := Nat.div_add_mod num den
  have hrest := Nat.mod_lt num hden
  unfold roundHalfEven
  dsimp only
  generalize num / den = quotient at *
  generalize num % den = rest at *
  subst hsplit
  rw [Nat.mul_comm den] at *
  rcases Nat.lt_trichotomy quotient m with hless | rfl | hmore
  · obtain ⟨more, rfl⟩ := Nat.exists_eq_add_of_lt hless
    have hcells : (quotient + more + 1) * den = quotient * den + more * den + den := by ring
    have hmore : more = 0 ∨ den ≤ more * den := by
      rcases Nat.eq_zero_or_pos more with hzero | hpos
      · exact .inl hzero
      · exact .inr (Nat.le_mul_of_pos_left den hpos)
    rw [hcells] at hlow hhigh heven
    rcases hmore with rfl | hmore
    · split <;> [skip; split] <;> omega
    · omega
  · split <;> [skip; split] <;> omega
  · obtain ⟨more, rfl⟩ := Nat.exists_eq_add_of_lt hmore
    have hcells : (m + more + 1) * den = m * den + more * den + den := by ring
    rw [hcells] at hlow hhigh heven
    omega

namespace Binary64

/-- The power of two by which the significand of a finite number is shifted. -/
def shift (x : Binary64) : Nat := x.exponent - 1

/-- The significand of a finite number. -/
def significand (x : Binary64) : Nat :=
  if x.exponent = 0 then x.fraction else x.fraction + twoTo 52

theorem units_eq (x : Binary64) : x.units = x.significand * twoTo x.shift := by
  unfold units significand shift
  split
  · rename_i hzero
    rw [hzero]
    exact (Nat.mul_one _).symm
  · rfl

theorem fraction_lt (x : Binary64) : x.fraction < twoTo 52 := Nat.mod_lt _ (Number.twoTo_pos 52)

theorem significand_lt (x : Binary64) : x.significand < twoTo 53 := by
  have hfraction := x.fraction_lt
  have h53 : twoTo 53 = twoTo 52 * 2 := rfl
  unfold significand
  split <;> omega

/-- A number is normal unless its exponent is the least. -/
theorem shift_eq_zero_or (x : Binary64) : x.shift = 0 ∨ twoTo 52 ≤ x.significand := by
  unfold shift significand
  split <;> omega

theorem shift_le {x : Binary64} (hfinite : x.isFinite = true) : x.shift ≤ 2045 := by
  have hexponent : x.exponent < 2048 := Nat.mod_lt _ (Number.twoTo_pos 11)
  have hne : x.exponent ≠ 2047 := by simpa [isFinite] using hfinite
  unfold shift
  omega

/-- A number is its sign, its shift and its significand. -/
theorem signed_parts (x : Binary64) :
    signed x.isNegative (x.shift * twoTo 52 + x.significand) = x := by
  have h52 : twoTo 52 = 4503599627370496 := rfl
  have h11 : twoTo 11 = 2048 := rfl
  have h63 : twoTo 63 = 9223372036854775808 := rfl
  have h64 : twoTo 64 = 18446744073709551616 := rfl
  have hword := x.word_lt
  have hparts : (if x.isNegative = true then twoTo 63 + (x.shift * twoTo 52 + x.significand)
      else x.shift * twoTo 52 + x.significand) = x.word := by
    unfold shift significand isNegative exponent fraction
    rw [h52, h11, h63]
    rw [h64] at hword
    simp only [decide_eq_true_eq]
    generalize x.word = word at hword ⊢
    split <;> split <;> omega
  unfold signed
  rw [hparts, ofWord_word]

theorem significand_pos {x : Binary64} (hzero : x.isZero = false) : 0 < x.significand := by
  have h52 : twoTo 52 = 4503599627370496 := rfl
  have h11 : twoTo 11 = 2048 := rfl
  have h63 : twoTo 63 = 9223372036854775808 := rfl
  unfold isZero at hzero
  unfold significand exponent fraction
  rw [h52, h11]
  rw [h63, beq_eq_false_iff_ne] at hzero
  split <;> omega

/-! ## The nearest double -/

/-- How far the interval of a double goes down, in quarter units. -/
def reach (significand shift : Nat) : Nat :=
  if significand = twoTo 52 ∧ 0 < shift then twoTo shift else 2 * twoTo shift

theorem log2_sub_of_lt {n shift : Nat} (hlow : shift = 0 ∨ twoTo (52 + shift) ≤ n)
    (hhigh : n < twoTo (53 + shift)) : n.log2 - 52 = shift := by
  rcases Nat.eq_zero_or_pos n with rfl | hpos
  · have hshift : shift = 0 := by
      refine hlow.resolve_right fun hle => ?_
      exact Nat.not_lt_of_le hle (Number.twoTo_pos _)
    rw [hshift, Nat.log2_zero]
  · have hbelow : n.log2 < 53 + shift := (Nat.log2_lt (Nat.ne_of_gt hpos)).2 hhigh
    rcases hlow with rfl | hle
    · omega
    · have habove : 52 + shift ≤ n.log2 := (Nat.le_log2 (Nat.ne_of_gt hpos)).2 hle
      omega

section

variable {num den shift : Nat}

/-- The word of a quotient, from its binade and the whole number nearest to it there. -/
theorem nearestWord_of_round {m : Nat} (hden : 0 < den)
    (hlow : shift = 0 ∨ twoTo (52 + shift) * den ≤ num) (hhigh : num < twoTo (53 + shift) * den)
    (hround : roundHalfEven num (den * twoTo shift) = m) :
    nearestWord num den = shift * twoTo 52 + m := by
  have hshift : (num / den).log2 - 52 = shift := by
    apply log2_sub_of_lt
    · exact hlow.imp_right (Nat.le_div_iff_mul_le hden).2
    · exact (Nat.div_lt_iff_lt_mul hden).2 hhigh
  unfold nearestWord
  dsimp only
  rw [hshift, hround]

/-- A quotient close below a power of two is rounded up to it, out of its own binade. -/
theorem nearestWord_of_close_below (hden : 0 < den)
    (hlow : 4 * (twoTo 52 * (den * twoTo (shift + 1))) ≤ 4 * num + den * twoTo (shift + 1))
    (hless : num < twoTo 52 * (den * twoTo (shift + 1))) :
    nearestWord num den = (shift + 1) * twoTo 52 + twoTo 52 := by
  have h53 : twoTo 53 = twoTo 52 * 2 := rfl
  have hcell : 0 < den * twoTo shift := Nat.mul_pos hden (Number.twoTo_pos shift)
  have hhalf : den * twoTo (shift + 1) = 2 * (den * twoTo shift) := by
    rw [Number.twoTo_succ]
    ring
  have hdouble : twoTo 52 * (2 * (den * twoTo shift)) = 2 * (twoTo 52 * (den * twoTo shift)) := by
    ring
  have hsum : twoTo 53 * (den * twoTo shift) = 2 * (twoTo 52 * (den * twoTo shift)) := by
    rw [h53]
    ring
  have hmany : den * twoTo shift ≤ twoTo 52 * (den * twoTo shift) :=
    Nat.le_mul_of_pos_left _ (Number.twoTo_pos 52)
  have hfloor : twoTo (52 + shift) * den = twoTo 52 * (den * twoTo shift) := by
    rw [Number.twoTo_add]
    ring
  have hceiling : twoTo (53 + shift) * den = twoTo 53 * (den * twoTo shift) := by
    rw [Number.twoTo_add]
    ring
  rw [hhalf, hdouble] at hlow hless
  have hround : roundHalfEven num (den * twoTo shift) = twoTo 53 := by
    apply roundHalfEven_eq
    · omega
    · omega
    · exact .inl rfl
    · exact hcell
  rw [nearestWord_of_round hden (.inr (by omega)) (by omega) hround, h53, Nat.add_one_mul]
  omega

/-- A quotient of units in the interval of a double has the word of the double. -/
theorem nearestWord_eq {significand : Nat} (hden : 0 < den)
    (hlt : significand < twoTo 53) (hnormal : shift = 0 ∨ twoTo 52 ≤ significand)
    (hlow : 4 * (significand * twoTo shift) * den ≤ 4 * num + reach significand shift * den)
    (hhigh : 4 * num ≤ (4 * (significand * twoTo shift) + 2 * twoTo shift) * den)
    (hends : significand % 2 = 0 ∨
      4 * (significand * twoTo shift) * den < 4 * num + reach significand shift * den ∧
        4 * num < (4 * (significand * twoTo shift) + 2 * twoTo shift) * den) :
    nearestWord num den = shift * twoTo 52 + significand := by
  have hcell : 0 < den * twoTo shift := Nat.mul_pos hden (Number.twoTo_pos shift)
  have hmiddle : 4 * (significand * twoTo shift) * den =
      4 * (significand * (den * twoTo shift)) := by ring
  have hupper : (4 * (significand * twoTo shift) + 2 * twoTo shift) * den =
      4 * (significand * (den * twoTo shift)) + 2 * (den * twoTo shift) := by ring
  rw [hmiddle] at hlow hends
  rw [hupper] at hhigh hends
  have hreach : reach significand shift * den ≤ 2 * (den * twoTo shift) := by
    have hwide : reach significand shift ≤ 2 * twoTo shift := by
      unfold reach
      split <;> omega
    calc reach significand shift * den ≤ 2 * twoTo shift * den := Nat.mul_le_mul_right den hwide
      _ = 2 * (den * twoTo shift) := by ring
  have hbelow : num < twoTo (53 + shift) * den := by
    have hcells : (significand + 1) * (den * twoTo shift) ≤ twoTo 53 * (den * twoTo shift) :=
      Nat.mul_le_mul_right _ hlt
    have htop : twoTo (53 + shift) * den = twoTo 53 * (den * twoTo shift) := by
      rw [Number.twoTo_add]
      ring
    rw [Nat.add_one_mul] at hcells
    omega
  by_cases hbinade : shift = 0 ∨ twoTo (52 + shift) * den ≤ num
  · -- The quotient lies in the binade of the double.
    have hround : roundHalfEven num (den * twoTo shift) = significand := by
      apply roundHalfEven_eq <;> omega
    exact nearestWord_of_round hden hbinade hbelow hround
  · -- It lies in the binade below, so the double is a power of two.
    obtain ⟨hpos, hless⟩ := not_or.1 hbinade
    have hcells : twoTo (52 + shift) * den = twoTo 52 * (den * twoTo shift) := by
      rw [Number.twoTo_add]
      ring
    have hpower : significand = twoTo 52 := by
      refine Nat.le_antisymm (Nat.le_of_not_lt fun hgt => ?_) (hnormal.resolve_left hpos)
      have hmore : (twoTo 52 + 1) * (den * twoTo shift) ≤ significand * (den * twoTo shift) :=
        Nat.mul_le_mul_right _ hgt
      rw [Nat.add_one_mul] at hmore
      omega
    have hquarter : reach significand shift * den = den * twoTo shift := by
      unfold reach
      rw [if_pos ⟨hpower, Nat.pos_of_ne_zero hpos⟩, Nat.mul_comm]
    rw [hquarter, hpower] at hlow
    rw [hcells] at hless
    obtain ⟨lower, rfl⟩ := Nat.exists_eq_succ_of_ne_zero hpos
    rw [hpower]
    exact nearestWord_of_close_below hden hlow (Nat.lt_of_not_le hless)

end

theorem ofUnits_eq {x : Binary64} (hfinite : x.isFinite = true) {num den : Nat} (hden : 0 < den)
    (hlow : 4 * x.units * den ≤ 4 * num + reach x.significand x.shift * den)
    (hhigh : 4 * num ≤ (4 * x.units + 2 * twoTo x.shift) * den)
    (hends : x.significand % 2 = 0 ∨
      4 * x.units * den < 4 * num + reach x.significand x.shift * den ∧
        4 * num < (4 * x.units + 2 * twoTo x.shift) * den) :
    ofUnits x.isNegative num den = x := by
  rw [units_eq] at hlow hhigh hends
  have hword : nearestWord num den = x.shift * twoTo 52 + x.significand :=
    nearestWord_eq hden x.significand_lt x.shift_eq_zero_or hlow hhigh hends
  have hfits : x.shift * twoTo 52 + x.significand ≤ infinityWord := by
    have hshift := shift_le hfinite
    have hsignificand := x.significand_lt
    have h52 : twoTo 52 = 4503599627370496 := rfl
    have h53 : twoTo 53 = 4503599627370496 * 2 := rfl
    unfold infinityWord
    rw [h52]
    rw [h53] at hsignificand
    omega
  unfold ofUnits
  rw [hword, Nat.min_eq_left hfits, signed_parts]

end Binary64

namespace Number.Shortest

open Binary64 (one reach)

/-! ## Decimal numbers in an interval -/

theorem interval_eq (x : Binary64) : interval x =
    ⟨4 * x.units - reach x.significand x.shift, 4 * x.units, 4 * x.units + 2 * twoTo x.shift,
      x.significand % 2 == 0⟩ := by
  have hpower : (x.fraction = 0 ∧ 1 < x.exponent) ↔
      (x.significand = twoTo 52 ∧ 0 < x.shift) := by
    have hfraction := x.fraction_lt
    unfold Binary64.significand Binary64.shift
    split <;> omega
  have hlast : x.fraction % 2 = x.significand % 2 := by
    have h52 : twoTo 52 = 4503599627370496 := rfl
    unfold Binary64.significand
    rw [h52]
    split <;> omega
  unfold interval reach
  simp only [hpower, hlast]
  rfl

/-- The decimal number of these digits and this exponent lies in the interval. -/
def Interval.Holds (i : Interval) (digits : Nat) (exponent : Int) : Prop :=
  i.has (quarters * tenTo exponent.toNat) (tenTo (-exponent).toNat) digits = true

theorem Interval.has_iff {i : Interval} {cell scale n : Nat} : i.has cell scale n = true ↔
    i.low * scale ≤ n * cell ∧ n * cell ≤ i.high * scale ∧
      (i.closed = true ∨ i.low * scale < n * cell ∧ n * cell < i.high * scale) := by
  unfold Interval.has
  cases i.closed with
  | true => simp
  | false =>
    simp only [Bool.false_eq_true, if_false, false_or, Bool.and_eq_true, decide_eq_true_eq]
    omega

/-- A zero at the end of the digits is as good as one more in the exponent. -/
theorem Interval.holds_mul_ten {i : Interval} {digits : Nat} {exponent : Int} :
    i.Holds (digits * 10) exponent ↔ i.Holds digits (exponent + 1) := by
  unfold Holds
  rw [has_iff, has_iff]
  by_cases hneg : exponent < 0
  · have hscale : (-exponent).toNat = (-(exponent + 1)).toNat + 1 := by omega
    rw [hscale, tenTo_succ, show (exponent + 1).toNat = exponent.toNat by omega]
    generalize tenTo (-(exponent + 1)).toNat = scale
    generalize quarters * tenTo exponent.toNat = cell
    have hdigits : digits * 10 * cell = digits * cell * 10 := by ring
    have hten : 0 < 10 := by decide
    rw [hdigits, ← Nat.mul_assoc i.low, ← Nat.mul_assoc i.high]
    simp only [Nat.mul_le_mul_right_iff hten, Nat.mul_lt_mul_right hten]
  · have hcell : (exponent + 1).toNat = exponent.toNat + 1 := by omega
    rw [hcell, tenTo_succ, show (-(exponent + 1)).toNat = (-exponent).toNat by omega]
    have hdigits : digits * (quarters * (tenTo exponent.toNat * 10)) =
        digits * 10 * (quarters * tenTo exponent.toNat) := by ring
    rw [hdigits]

theorem Interval.holds_mul_tenTo {i : Interval} {digits zeros : Nat} {exponent : Int} :
    i.Holds (digits * tenTo zeros) exponent ↔ i.Holds digits (exponent + zeros) := by
  induction zeros generalizing exponent with
  | zero => simp [tenTo]
  | succ zeros ih =>
    rw [tenTo_succ, ← Nat.mul_assoc, holds_mul_ten, ih]
    have hsum : exponent + 1 + (zeros : Int) = exponent + (zeros + 1 : Nat) := by omega
    rw [hsum]

section

variable {x : Binary64} {digits : Nat} {exponent : Int}

/-- The interval of a number other than zero lies above zero. -/
theorem two_mul_twoTo_le_low (hzero : x.isZero = false) : 2 * twoTo x.shift ≤ (interval x).low := by
  have hpos := Binary64.significand_pos hzero
  have hunits : twoTo x.shift ≤ x.units := by
    rw [Binary64.units_eq]
    exact Nat.le_mul_of_pos_left _ hpos
  have hreach : reach x.significand x.shift ≤ 2 * twoTo x.shift := by
    unfold reach
    split <;> omega
  rw [interval_eq]
  show 2 * twoTo x.shift ≤ 4 * x.units - reach x.significand x.shift
  omega

theorem high_le (hfinite : x.isFinite = true) : (interval x).high ≤ twoTo 2100 := by
  have hcells : (x.significand + 1) * twoTo x.shift ≤ twoTo 53 * twoTo 2045 :=
    Nat.mul_le_mul x.significand_lt (Number.twoTo_le_twoTo (Binary64.shift_le hfinite))
  have h2 : twoTo 2 = 4 := rfl
  have htop : twoTo 2100 = 4 * (twoTo 53 * twoTo 2045) := by
    rw [← Number.twoTo_add, ← h2, ← Number.twoTo_add]
  rw [interval_eq, htop]
  show 4 * x.units + 2 * twoTo x.shift ≤ _
  rw [Binary64.units_eq]
  rw [Nat.add_one_mul] at hcells
  omega

theorem tenTo_zero : tenTo 0 = 1 := rfl

theorem tenTo_add (m n : Nat) : tenTo (m + n) = tenTo m * tenTo n := Nat.pow_add 10 m n

theorem tenTo_le_tenTo {m n : Nat} (h : m ≤ n) : tenTo m ≤ tenTo n :=
  Nat.pow_le_pow_right (by decide) h

/-- A power of ten is greater than the third of the powers of two with its exponent. -/
theorem twoTo_mul_three_le (n : Nat) : twoTo (3 * n) ≤ tenTo n := by
  have height : twoTo (3 * n) = 8 ^ n := Nat.pow_mul 2 3 n
  rw [height]
  exact Nat.pow_le_pow_left (by decide) n

theorem quarters_pos : 0 < quarters := Nat.mul_pos (by decide) (Number.twoTo_pos 1074)

theorem quarters_eq : quarters = twoTo 1076 := by
  have h2 : twoTo 2 = 4 := rfl
  rw [quarters, one, ← h2, ← Number.twoTo_add]

/-- The decimal numbers in the interval of a double are far from where powers are told apart before
they are computed. -/
theorem Interval.Holds.bounds (h : (interval x).Holds digits exponent) (hfinite : x.isFinite = true)
    (hzero : x.isZero = false) :
    digits ≠ 0 ∧ ¬ 400 < exponent ∧ ¬ exponent < -(400 + digits.log2 + 1 : Nat) := by
  obtain ⟨hlow, hhigh, -⟩ := has_iff.1 h
  have hleast : 2 ≤ (interval x).low := by
    have hpos := Number.twoTo_pos x.shift
    exact Nat.le_trans (by omega) (two_mul_twoTo_le_low hzero)
  have hdigits : digits ≠ 0 := by
    rintro rfl
    have hscale := tenTo_pos (-exponent).toNat
    have := Nat.mul_pos (Nat.lt_of_lt_of_le Nat.two_pos hleast) hscale
    omega
  refine ⟨hdigits, fun hlarge => ?_, fun hsmall => ?_⟩
  · -- The number would be at least `10 ^ 401`.
    have hscale : (-exponent).toNat = 0 := by omega
    have hpower : twoTo (3 * 401) ≤ tenTo exponent.toNat :=
      Nat.le_trans (twoTo_mul_three_le 401) (tenTo_le_tenTo (by omega))
    rw [hscale] at hhigh
    have : twoTo (1076 + 3 * 401) ≤ twoTo 2100 :=
      calc twoTo (1076 + 3 * 401) = quarters * twoTo (3 * 401) := by
            rw [quarters_eq, Number.twoTo_add]
        _ ≤ quarters * tenTo exponent.toNat := Nat.mul_le_mul_left _ hpower
        _ ≤ digits * (quarters * tenTo exponent.toNat) :=
            Nat.le_mul_of_pos_left _ (Nat.pos_of_ne_zero hdigits)
        _ ≤ (interval x).high * tenTo 0 := hhigh
        _ = (interval x).high := by rw [tenTo_zero, Nat.mul_one]
        _ ≤ twoTo 2100 := high_le hfinite
    exact absurd this (Nat.not_le_of_lt (Number.twoTo_lt_twoTo_iff.2 (by decide)))
  · -- It would be less than `10 ^ (-400)`.
    have hcell : exponent.toNat = 0 := by omega
    have hpower : twoTo (3 * (digits.log2 + 401)) ≤ tenTo (-exponent).toNat :=
      Nat.le_trans (twoTo_mul_three_le _) (tenTo_le_tenTo (by omega))
    rw [hcell] at hlow
    have : twoTo (3 * (digits.log2 + 401)) < twoTo (digits.log2 + 1 + 1076) :=
      calc twoTo (3 * (digits.log2 + 401)) ≤ tenTo (-exponent).toNat := hpower
        _ ≤ (interval x).low * tenTo (-exponent).toNat :=
            Nat.le_mul_of_pos_left _ (by omega)
        _ ≤ digits * (quarters * tenTo 0) := hlow
        _ = digits * twoTo 1076 := by rw [tenTo_zero, Nat.mul_one, quarters_eq]
        _ < twoTo (digits.log2 + 1) * twoTo 1076 :=
            Nat.mul_lt_mul_of_pos_right Nat.lt_log2_self (Number.twoTo_pos 1076)
        _ = twoTo (digits.log2 + 1 + 1076) := (Number.twoTo_add _ _).symm
    have := Number.twoTo_lt_twoTo_iff.1 this
    omega

/-- A double is the nearest one to every decimal number in its interval. -/
theorem Interval.Holds.ofDecimal_eq (h : (interval x).Holds digits exponent)
    (hfinite : x.isFinite = true) (hzero : x.isZero = false) :
    Binary64.ofDecimal x.isNegative digits exponent = x := by
  obtain ⟨hdigits, hlarge, hsmall⟩ := h.bounds hfinite hzero
  obtain ⟨hlow, hhigh, hends⟩ := has_iff.1 h
  have hscale : 0 < tenTo (-exponent).toNat := tenTo_pos _
  rw [interval_eq] at hlow hhigh hends
  simp only [Nat.sub_mul, beq_iff_eq] at hlow hhigh hends
  unfold Binary64.ofDecimal Binary64.ofRatio
  rw [if_neg hdigits, if_neg hlarge, if_neg hsmall]
  split
  · rename_i hwhole
    have hunits : 4 * (digits * tenTo exponent.toNat * one) =
        digits * (quarters * tenTo exponent.toNat) := by
      unfold quarters
      ring
    rw [show (-exponent).toNat = 0 by omega, tenTo_zero] at hlow hhigh hends
    apply Binary64.ofUnits_eq hfinite Nat.one_pos <;> rw [hunits] <;> omega
  · have hunits : 4 * (digits * one) = digits * (quarters * tenTo exponent.toNat) := by
      rw [show exponent.toNat = 0 by omega, tenTo_zero]
      unfold quarters
      ring
    apply Binary64.ofUnits_eq hfinite hscale <;> rw [hunits] <;> omega

end

/-! ## Finding the digits -/

theorem lt_tenTo_length_digits (n : Nat) : n < tenTo (Decimal.digits n).length := by
  have hpos : 0 < (Decimal.digits n).length := List.length_pos_iff.2 Nat.toDigits_ne_nil
  exact (Nat.length_toDigits_le_iff (by decide) hpos).1 (Nat.le_refl _)

theorem tenTo_le_of_length_digits {n : Nat} (hpos : 0 < n) :
    tenTo ((Decimal.digits n).length - 1) ≤ n := by
  rcases Nat.eq_zero_or_pos ((Decimal.digits n).length - 1) with hzero | hmore
  · rw [hzero]
    exact hpos
  · refine Nat.le_of_not_lt fun hless => ?_
    have hlength := (Nat.length_toDigits_le_iff (by decide) hmore).2 hless
    unfold Decimal.digits at hlength hmore
    omega

/-- The first digit of a number stands at the position before its point, or in front of that. -/
theorem quarters_le_value {value : Nat} (hpos : 0 < value) :
    quarters * tenTo (pointPosition value - 1).toNat ≤
      value * tenTo (1 - pointPosition value).toNat := by
  have hquarters := quarters_pos
  unfold pointPosition
  split
  · rename_i hone
    have hwhole : 0 < value / quarters := Nat.div_pos hone hquarters
    have hdigits := tenTo_le_of_length_digits hwhole
    have hlength : 0 < (Decimal.digits (value / quarters)).length :=
      List.length_pos_iff.2 Nat.toDigits_ne_nil
    generalize (Decimal.digits (value / quarters)).length = length at hdigits hlength ⊢
    rw [show ((length : Int) - 1).toNat = length - 1 by omega,
      show (1 - (length : Int)).toNat = 0 by omega, tenTo_zero, Nat.mul_one, Nat.mul_comm]
    exact (Nat.le_div_iff_mul_le hquarters).1 hdigits
  · have hdigits := lt_tenTo_length_digits ((quarters + value - 1) / value - 1)
    generalize (Decimal.digits ((quarters + value - 1) / value - 1)).length = length at hdigits ⊢
    rw [show ((1 - (length : Nat) : Int) - 1).toNat = 0 by omega,
      show (1 - (1 - (length : Nat) : Int)).toNat = length by omega, tenTo_zero, Nat.mul_one]
    have hceil : (quarters + value - 1) / value < tenTo length + 1 := by omega
    rw [Nat.div_lt_iff_lt_mul hpos, Nat.add_one_mul, Nat.mul_comm (tenTo length)] at hceil
    omega

/-- The interval of a double is wider than a cell of the grid of seventeen digits. -/
theorem value_lt_width {x : Binary64} (hzero : x.isZero = false) :
    (interval x).value < tenTo 16 * (interval x).high - tenTo 16 * (interval x).low := by
  have hsignificand := x.significand_lt
  have hpos := Number.twoTo_pos x.shift
  have hunits := x.units_eq
  have hlarge : twoTo x.shift ≤ x.units := by
    rw [hunits]
    exact Nat.le_mul_of_pos_left _ (Binary64.significand_pos hzero)
  have h16 : tenTo 16 = 10000000000000000 := rfl
  have h52 : twoTo 52 = 4503599627370496 := rfl
  have h53 : twoTo 53 = 9007199254740992 := rfl
  rw [interval_eq, h16]
  show 4 * x.units < 10000000000000000 * (4 * x.units + 2 * twoTo x.shift) -
    10000000000000000 * (4 * x.units - reach x.significand x.shift)
  unfold reach
  split
  · rename_i hpower
    rw [hpower.1, h52] at hunits
    omega
  · have hless : x.units < 9007199254740992 * twoTo x.shift := by
      rw [hunits, ← h53]
      exact Nat.mul_lt_mul_of_pos_right hsignificand hpos
    omega

section

variable {i : Interval} {point : Int} {count : Nat}

/-- The digits found on a grid are those of a number in the interval. -/
theorem holds_of_onGrid? {found : Scaled} (h : onGrid? i point count = some found) :
    i.Holds found.digits found.exponent := by
  unfold onGrid? at h
  dsimp only at h
  unfold Interval.Holds
  split at h
  · rename_i hbelow habove
    split at h
    · cases h
      exact hbelow
    · cases h
      exact habove
  · rename_i hbelow _
    cases h
    exact hbelow
  · rename_i _ habove
    cases h
    exact habove
  · cases h

/-- A grid with no number in an interval has cells as wide as the interval. -/
theorem width_le_of_onGrid?_eq_none (h : onGrid? i point count = none) (hlow : i.low ≤ i.value)
    (hhigh : i.value < i.high) :
    i.high * tenTo (-(point - count)).toNat ≤ i.low * tenTo (-(point - count)).toNat +
      quarters * tenTo (point - count).toNat := by
  unfold onGrid? at h
  dsimp only at h
  have hscale : 0 < tenTo (-(point - count)).toNat := tenTo_pos _
  have hcell : 0 < quarters * tenTo (point - count).toNat :=
    Nat.mul_pos quarters_pos (tenTo_pos _)
  generalize tenTo (-(point - count)).toNat = scale at hscale h ⊢
  generalize quarters * tenTo (point - count).toNat = cell at hcell h ⊢
  have hvalue : i.value * scale / cell * cell ≤ i.value * scale := Nat.div_mul_le_self _ _
  have hnext : i.value * scale < i.value * scale / cell * cell + cell := Nat.lt_div_mul_add hcell
  have hbelow : i.low * scale ≤ i.value * scale := Nat.mul_le_mul_right scale hlow
  have habove : i.value * scale < i.high * scale := Nat.mul_lt_mul_of_pos_right hhigh hscale
  split at h
  · split at h <;> cases h
  · cases h
  · cases h
  · rename_i hfirst hsecond
    rw [← Bool.not_eq_true, Interval.has_iff] at hfirst hsecond
    rw [Nat.add_one_mul] at hsecond
    refine Nat.le_of_not_lt fun hwide => ?_
    by_cases hleft : i.low * scale < i.value * scale / cell * cell
    · exact hfirst ⟨by omega, by omega, .inr (by omega)⟩
    · exact hsecond ⟨by omega, by omega, .inr (by omega)⟩

end

/-- Seventeen digits are enough for every double. -/
theorem onGrid?_seventeen {x : Binary64} (hzero : x.isZero = false) :
    onGrid? (interval x) (pointPosition (interval x).value) 17 ≠ none := by
  intro hnone
  have hwidth := value_lt_width hzero
  have hpos : 0 < (interval x).value := by
    have hfar := two_mul_twoTo_le_low hzero
    have hleast := Number.twoTo_pos x.shift
    rw [interval_eq] at hfar ⊢
    show 0 < 4 * x.units
    have : 2 * twoTo x.shift ≤ 4 * x.units - reach x.significand x.shift := hfar
    omega
  have hlow : (interval x).low ≤ (interval x).value := by
    rw [interval_eq]
    exact Nat.sub_le _ _
  have hhigh : (interval x).value < (interval x).high := by
    have hleast := Number.twoTo_pos x.shift
    rw [interval_eq]
    show 4 * x.units < 4 * x.units + 2 * twoTo x.shift
    omega
  have hcells := width_le_of_onGrid?_eq_none hnone hlow hhigh
  have hpoint := quarters_le_value hpos
  generalize pointPosition (interval x).value = point at hcells hpoint
  obtain ⟨more, hmore, hscale⟩ : ∃ more,
      (point - (17 : Nat)).toNat + 16 = (point - 1).toNat + more ∧
        (-(point - (17 : Nat))).toNat = (1 - point).toNat + more :=
    ⟨(-(point - (17 : Nat))).toNat - (1 - point).toNat, by omega, by omega⟩
  -- A cell is at most `10 ^ (-16)` of the value.
  have hcell : quarters * tenTo (point - (17 : Nat)).toNat * tenTo 16 ≤
      (interval x).value * tenTo (-(point - (17 : Nat))).toNat :=
    calc quarters * tenTo (point - (17 : Nat)).toNat * tenTo 16
        = quarters * tenTo (point - 1).toNat * tenTo more := by
          rw [Nat.mul_assoc, ← tenTo_add, hmore, tenTo_add, Nat.mul_assoc]
      _ ≤ (interval x).value * tenTo (1 - point).toNat * tenTo more :=
          Nat.mul_le_mul_right _ hpoint
      _ = (interval x).value * tenTo (-(point - (17 : Nat))).toNat := by
          rw [hscale, tenTo_add, Nat.mul_assoc]
  have hpositive := tenTo_pos (-(point - (17 : Nat))).toNat
  generalize tenTo (-(point - (17 : Nat))).toNat = scale at hcells hcell hpositive
  have hless := Nat.mul_lt_mul_of_pos_right hwidth hpositive
  rw [Nat.sub_mul] at hless
  have hscaled := Nat.mul_le_mul_left (tenTo 16) hcells
  rw [Nat.mul_add, ← Nat.mul_assoc, ← Nat.mul_assoc, Nat.mul_comm (tenTo 16) (_ * tenTo _)]
    at hscaled
  omega

/-- The shortest digits of a double are those of a number in its interval. -/
theorem holds_scaled {x : Binary64} (hzero : x.isZero = false) :
    (interval x).Holds (scaled x).digits (scaled x).exponent := by
  unfold scaled
  dsimp only
  have hfound : ((List.range 17).findSome? fun n =>
      onGrid? (interval x) (pointPosition (interval x).value) (n + 1)) ≠ none := by
    intro hnone
    exact onGrid?_seventeen hzero (List.findSome?_eq_none_iff.1 hnone 16 (by decide))
  obtain ⟨⟨digits, exponent⟩, hsome⟩ := Option.ne_none_iff_exists'.1 hfound
  obtain ⟨n, -, hgrid⟩ := List.exists_of_findSome?_eq_some hsome
  have hholds := holds_of_onGrid? hgrid
  dsimp only at hholds
  rw [hsome]
  dsimp only
  split
  · rename_i hround
    have hdigits : digits = digits / 10 * 10 := by omega
    rw [hdigits] at hholds
    exact Interval.holds_mul_ten.1 hholds
  · exact hholds

end Number.Shortest

end RateLedger
