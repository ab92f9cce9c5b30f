import Mathlib.Data.List.TakeWhile
import Mathlib.Tactic.IntervalCases
import RateLedger.Number.Numeral
import RateLedger.Proofs.ShortestDigits

/-!
# Numbers written out

A decimal numeral is a row of digits, a point with more digits if there are any, and perhaps an
exponent. The plain reading of such a text is the double nearest to its digits at its exponent
(`unsigned?_eq`). The text of a finite double is one, and however it is laid out, its digits at its
exponent are a decimal number in the interval of the double (`layout_magnitude`). So the text of
every double is read back, the sign and the fraction of not-a-number apart, which are not written
(`plain?_ofBinary64_iff`).

The text of a whole number is read back unless it is too long (`whole_ofInt_iff`).
-/

namespace RateLedger

namespace Binary64

theorem zero_isNegative {x : Binary64} (hzero : x.isZero = true) : zero x.isNegative = x := by
  have h52 : Number.twoTo 52 = 4503599627370496 := rfl
  have h11 : Number.twoTo 11 = 2048 := rfl
  have h63 : Number.twoTo 63 = 9223372036854775808 := rfl
  have hparts : x.shift * Number.twoTo 52 + x.significand = 0 := by
    unfold isZero at hzero
    unfold shift significand exponent fraction
    rw [h63, beq_iff_eq] at hzero
    rw [h52, h11]
    split <;> omega
  have hsigned := x.signed_parts
  rwa [hparts] at hsigned

theorem infinity_isNegative {x : Binary64} (hfinite : x.isFinite = false) (hnan : x.isNaN = false) :
    infinity x.isNegative = x := by
  have hexponent : x.exponent = 2047 := by simpa [isFinite] using hfinite
  have hfraction : x.fraction = 0 := by simpa [isNaN, hexponent] using hnan
  have hparts : x.shift * Number.twoTo 52 + x.significand = infinityWord := by
    unfold shift significand
    rw [hexponent, hfraction]
    rfl
  have hsigned := x.signed_parts
  rwa [hparts] at hsigned

end Binary64

namespace Number

namespace Numeral

open Text.Blank (isBlank isWhite trimBoth)

/-- The number that a row of digits writes. -/
def rowValue (row : List Char) : Nat := Text.Digit.number (row.map fun c => c.toNat - '0'.toNat)

/-- Whether a text is a row of digits. -/
def IsRow (row : List Char) : Prop := ∀ c ∈ row, c.isDigit = true

/-- Whether a character can stand in the text of a number. -/
def isNumeral (c : Char) : Bool := c.isDigit || ['.', 'e', '+', '-', 'i', 'n', 'f', 'a'].contains c

theorem isNumeral_cases {c : Char} (hc : isNumeral c = true) :
    (48 ≤ c.toNat ∧ c.toNat ≤ 57) ∨ c ∈ ['.', 'e', '+', '-', 'i', 'n', 'f', 'a'] := by
  rw [isNumeral, Bool.or_eq_true, List.contains_iff_mem] at hc
  exact hc.imp_left Char.isDigit_iff_toNat.1

/-- Numbers are written without blanks. -/
theorem isBlank_of_isNumeral {c : Char} (hc : isNumeral c = true) : isBlank c = false := by
  rcases isNumeral_cases hc with hdigit | hmark
  · simp [isBlank, isWhite, Text.Blank.codes]
    omega
  · simp only [List.mem_cons, List.not_mem_nil, or_false] at hmark
    rcases hmark with rfl | rfl | rfl | rfl | rfl | rfl | rfl | rfl <;> rfl

theorem isWhite_of_isNumeral {c : Char} (hc : isNumeral c = true) : isWhite c = false := by
  have hblank := isBlank_of_isNumeral hc
  rw [isBlank, Bool.or_eq_false_iff] at hblank
  exact hblank.1

theorem IsRow.isNumeral {row : List Char} (hrow : IsRow row) :
    ∀ c ∈ row, isNumeral c = true := by
  intro c hc
  rw [Numeral.isNumeral, hrow c hc, Bool.true_or]

theorem IsRow.append {row more : List Char} (hrow : IsRow row) (hmore : IsRow more) :
    IsRow (row ++ more) := by
  intro c hc
  exact (List.mem_append.1 hc).elim (hrow c) (hmore c)

theorem isRow_replicate (count : Nat) : IsRow (List.replicate count '0') := by
  intro c hc
  rw [List.eq_of_mem_replicate hc]
  rfl

theorem isRow_digits (n : Nat) : IsRow (Decimal.digits n) :=
  fun _ hc => Nat.isDigit_of_mem_toDigits (by decide) (by decide) hc

theorem digits_ne_nil (n : Nat) : Decimal.digits n ≠ [] := Nat.toDigits_ne_nil

theorem rowValue_eq_ofDigitChars (row : List Char) : rowValue row = Nat.ofDigitChars 10 row 0 := by
  unfold rowValue Text.Digit.number Nat.ofDigitChars
  rw [List.foldl_map]
  congr 1
  funext n c
  rw [Nat.mul_comm]

theorem rowValue_digits (n : Nat) : rowValue (Decimal.digits n) = n := by
  rw [rowValue_eq_ofDigitChars]
  exact Nat.ofDigitChars_ten_toDigits

theorem rowValue_zero_cons (row : List Char) : rowValue ('0' :: row) = rowValue row := by
  simp [rowValue, Text.Digit.number]

theorem rowValue_zeros_append (count : Nat) (row : List Char) :
    rowValue (List.replicate count '0' ++ row) = rowValue row := by
  induction count with
  | zero => rfl
  | succ count ih => rw [List.replicate_succ, List.cons_append, rowValue_zero_cons, ih]

theorem rowValue_append_zeros (row : List Char) (count : Nat) :
    rowValue (row ++ List.replicate count '0') = rowValue row * tenTo count := by
  induction count with
  | zero => simp [tenTo]
  | succ count ih =>
    have hlast : rowValue (row ++ List.replicate (count + 1) '0') =
        rowValue (row ++ List.replicate count '0') * 10 := by
      rw [List.replicate_succ', ← List.append_assoc]
      simp [rowValue, Text.Digit.number]
    rw [hlast, ih, tenTo_succ, Nat.mul_assoc]

/-! ## Reading a numeral -/

theorem spanDigits_append {row rest : List Char} (hrow : IsRow row)
    (hrest : ∀ c ∈ rest.head?, c.isDigit = false) :
    spanDigits Text.Digit.ascii? (row ++ rest) =
      (row.map fun c => c.toNat - '0'.toNat, rest) := by
  induction row with
  | nil =>
    cases rest with
    | nil => rfl
    | cons c rest =>
      have hc : c.isDigit = false := hrest c rfl
      simp [spanDigits, Text.Digit.ascii?, hc]
  | cons c row ih =>
    have hc : c.isDigit = true := hrow c List.mem_cons_self
    have hmore := ih fun d hd => hrow d (List.mem_cons_of_mem c hd)
    simp [spanDigits, Text.Digit.ascii?, hc, hmore]

/-- Digits behind a point, if there are any. -/
def pointed : List Char → List Char
  | [] => []
  | row => '.' :: row

/-- What may follow the digits of a numeral: an exponent, if there is one. -/
structure IsTail (tail : List Char) (exponent : Int) : Prop where
  read : exponent? Text.Digit.ascii? tail = some exponent
  starts : ∀ c ∈ tail.head?, c = 'e'
  isNumeral : ∀ c ∈ tail, isNumeral c = true

theorem isTail_nil : IsTail [] 0 := ⟨rfl, by simp, by simp⟩

theorem isTail_exponent {row : List Char} (hrow : IsRow row) (hne : row ≠ []) (negative : Bool) :
    IsTail ('e' :: (if negative then '-' else '+') :: row)
      (if negative then -(rowValue row : Int) else rowValue row) := by
  have hspan : spanDigits Text.Digit.ascii? row = (row.map fun c => c.toNat - '0'.toNat, []) := by
    rw [← List.append_nil row, spanDigits_append hrow (by simp), List.append_nil]
  refine ⟨?_, by simp, ?_⟩
  · obtain ⟨c, more, rfl⟩ := List.exists_cons_of_ne_nil hne
    cases negative <;> simp [exponent?, sign, hspan, rowValue]
  · simp only [List.mem_cons, forall_eq_or_imp]
    exact ⟨rfl, by cases negative <;> rfl, hrow.isNumeral⟩

/-- A text that starts with a digit is none of the words that count as numerals. -/
theorem map_toLower_ne {c : Char} (hc : c.isDigit = true) (chars : List Char) {first : Char}
    (hfirst : first.isDigit = false) (word : List Char) :
    (c :: chars).map Char.toLower ≠ first :: word := by
  intro h
  have hsame : c.toLower = c := by
    have hdigit := Char.isDigit_iff_toNat.1 hc
    have hupper : ¬ (c.val ≥ 'A'.val ∧ c.val ≤ 'Z'.val) := by
      rintro ⟨hlow, -⟩
      have : 'A'.toNat ≤ c.toNat := hlow
      exact absurd (Nat.le_trans this hdigit.2) (by decide)
    unfold Char.toLower
    rw [dif_neg hupper]
  rw [List.map_cons, hsame] at h
  rw [(List.cons.inj h).1, hfirst] at hc
  cases hc

/-- A numeral is read as the double nearest to its digits at its exponent. -/
theorem unsigned?_eq (negative : Bool) {whole part tail : List Char} {exponent : Int}
    (hne : whole ≠ []) (hwhole : IsRow whole) (hpart : IsRow part) (htail : IsTail tail exponent) :
    unsigned? Text.Digit.ascii? negative (whole ++ pointed part ++ tail) =
      some (.ofDecimal negative (rowValue (whole ++ part)) (exponent - part.length)) := by
  have htailDigit : ∀ c ∈ tail.head?, c.isDigit = false := by
    intro c hc
    rw [htail.starts c hc]
    rfl
  have hspanWhole : spanDigits Text.Digit.ascii? (whole ++ pointed part ++ tail) =
      (whole.map fun c => c.toNat - '0'.toNat, pointed part ++ tail) := by
    rw [List.append_assoc]
    apply spanDigits_append hwhole
    cases part with
    | nil => exact htailDigit
    | cons c part =>
      rintro c ⟨⟩
      rfl
  obtain ⟨first, more, rfl⟩ := List.exists_cons_of_ne_nil hne
  have hfirst := hwhole first List.mem_cons_self
  unfold unsigned?
  dsimp only
  rw [hspanWhole, List.cons_append, List.cons_append, if_neg, if_neg]
  · cases part with
    | nil =>
      cases tail with
      | nil => simp [pointed, htail.read, rowValue]
      | cons e tail =>
        have he : e = 'e' := htail.starts e rfl
        subst he
        simp [pointed, htail.read, rowValue]
    | cons c part =>
      have hspanPart := spanDigits_append hpart htailDigit
      simp only [pointed, List.cons_append] at hspanPart ⊢
      simp [hspanPart, htail.read, rowValue]
  · exact map_toLower_ne hfirst _ rfl _
  · rintro (h | h)
    · exact map_toLower_ne hfirst _ rfl _ h
    · exact map_toLower_ne hfirst _ rfl _ h

theorem sign_row {c : Char} (hc : c.isDigit = true) (chars : List Char) :
    sign (c :: chars) = (false, c :: chars) := by
  unfold sign
  split
  · rename_i heq
    cases heq
    cases hc
  · rename_i heq
    cases heq
    cases hc
  · rfl

theorem trimBoth_of_forall {drop : Char → Bool} {chars : List Char}
    (h : ∀ c ∈ chars, drop c = false) : trimBoth drop chars = chars :=
  Text.Blank.trimBoth_eq_self (fun c hc => h c (List.mem_of_head? hc))
    fun c hc => h c (List.mem_of_getLast? hc)

theorem plain?_eq_of_signed? {chars : List Char} {x : Binary64}
    (hchars : ∀ c ∈ chars, isNumeral c = true) (h : signed? Text.Digit.ascii? chars = some x) :
    plain? (String.ofList chars) = some x := by
  unfold plain?
  rw [String.toList_ofList, trimBoth_of_forall fun c hc => isWhite_of_isNumeral (hchars c hc), h]

end Numeral

/-! ## The text of a double -/

namespace Shortest

open Numeral (IsRow IsTail isNumeral pointed rowValue)

/-- A text laid out as a numeral whose digits, at its exponent, lie in an interval. -/
structure IsLaidOut (i : Interval) (chars whole part tail : List Char) (exponent : Int) :
    Prop where
  text : chars = whole ++ pointed part ++ tail
  nonempty : whole ≠ []
  isRow_whole : IsRow whole
  isRow_part : IsRow part
  isTail : IsTail tail exponent
  holds : i.Holds (rowValue (whole ++ part)) (exponent - part.length)

section

variable {i : Interval} {digits : Nat} {exponent : Int}

theorem layout_positional (h : i.Holds digits exponent) :
    ∃ whole part, IsLaidOut i
      (positional (Decimal.digits digits) (exponent + (Decimal.digits digits).length))
      whole part [] 0 := by
  have hrow := Numeral.isRow_digits digits
  have hvalue := Numeral.rowValue_digits digits
  have hne := Numeral.digits_ne_nil digits
  generalize Decimal.digits digits = chars at hrow hvalue hne ⊢
  have hlength : 0 < chars.length := List.length_pos_iff.2 hne
  generalize hpoint : exponent + (chars.length : Int) = point
  unfold positional
  split
  · -- The point stands in front of the digits.
    refine ⟨['0'], List.replicate (-point).toNat '0' ++ chars, ?_, by simp,
      Numeral.isRow_replicate 1, (Numeral.isRow_replicate _).append hrow, Numeral.isTail_nil, ?_⟩
    · obtain ⟨c, more, hchars⟩ : ∃ c more, List.replicate (-point).toNat '0' ++ chars = c :: more :=
        List.exists_cons_of_ne_nil (by simp [hne])
      rw [List.cons_append, List.cons_append, hchars]
      simp [pointed]
    · rw [List.singleton_append, Numeral.rowValue_zero_cons, Numeral.rowValue_zeros_append, hvalue]
      have hexponent : 0 - ((List.replicate (-point).toNat '0' ++ chars).length : Int) =
          exponent := by
        rw [List.length_append, List.length_replicate]
        omega
      rw [hexponent]
      exact h
  · split
    · -- It stands behind them, with a zero after it.
      refine ⟨chars ++ List.replicate (point.toNat - chars.length) '0', ['0'], ?_, by simp [hne],
        hrow.append (Numeral.isRow_replicate _), Numeral.isRow_replicate 1, Numeral.isTail_nil, ?_⟩
      · simp [pointed]
      · have hzero : ['0'] = List.replicate 1 '0' := rfl
        rw [hzero, List.append_assoc, List.replicate_append_replicate,
          Numeral.rowValue_append_zeros, hvalue, Interval.holds_mul_tenTo, List.length_replicate]
        have hexponent : 0 - ((1 : Nat) : Int) + (point.toNat - chars.length + 1 : Nat) =
            exponent := by omega
        rw [hexponent]
        exact h
    · -- It stands among them.
      refine ⟨chars.take point.toNat, chars.drop point.toNat, ?_, ?_,
        fun c hc => hrow c (List.mem_of_mem_take hc), fun c hc => hrow c (List.mem_of_mem_drop hc),
        Numeral.isTail_nil, ?_⟩
      · obtain ⟨c, more, hdrop⟩ : ∃ c more, chars.drop point.toNat = c :: more :=
          List.exists_cons_of_ne_nil fun hnil => by
            have := List.drop_eq_nil_iff.1 hnil
            omega
        rw [hdrop]
        simp [pointed]
      · intro hnil
        have := congrArg List.length hnil
        rw [List.length_take, List.length_nil] at this
        omega
      · rw [List.take_append_drop, hvalue, List.length_drop]
        have hexponent : 0 - ((chars.length - point.toNat : Nat) : Int) = exponent := by omega
        rw [hexponent]
        exact h

theorem padded_two : ∀ n < 10, IsRow (Decimal.padded 2 n) ∧ rowValue (Decimal.padded 2 n) = n := by
  intro n hn
  interval_cases n <;> exact ⟨List.all_eq_true.1 rfl, rfl⟩

/-- The digits of an exponent are its row of digits. -/
theorem row_exponent (magnitude : Nat) :
    ∃ row, (if magnitude < 10 then Decimal.padded 2 magnitude else Decimal.digits magnitude) = row ∧
      IsRow row ∧ row ≠ [] ∧ rowValue row = magnitude := by
  refine ⟨_, rfl, ?_⟩
  split
  · rename_i hsmall
    obtain ⟨hrow, hvalue⟩ := padded_two magnitude hsmall
    refine ⟨hrow, fun hnil => ?_, hvalue⟩
    have := congrArg List.length hnil
    rw [Decimal.length_padded] at this
    cases this
  · exact ⟨Numeral.isRow_digits _, Numeral.digits_ne_nil _, Numeral.rowValue_digits _⟩

theorem layout_exponential (h : i.Holds digits exponent) :
    ∃ whole part tail power, IsLaidOut i
      (exponential (Decimal.digits digits) (exponent + (Decimal.digits digits).length))
      whole part tail power := by
  have hrow := Numeral.isRow_digits digits
  have hvalue := Numeral.rowValue_digits digits
  have hne := Numeral.digits_ne_nil digits
  generalize Decimal.digits digits = chars at hrow hvalue hne ⊢
  obtain ⟨first, more, rfl⟩ := List.exists_cons_of_ne_nil hne
  generalize hpoint : exponent + ((first :: more).length : Int) = point
  obtain ⟨row, hrowEq, hrowExponent, hrowNe, hrowValue⟩ := row_exponent (point - 1).natAbs
  have htail := Numeral.isTail_exponent hrowExponent hrowNe (point - 1 < 0)
  have hpower : (if decide (point - 1 < 0) = true then -(rowValue row : Int) else rowValue row) =
      point - 1 := by
    rw [hrowValue]
    simp only [decide_eq_true_eq]
    split <;> omega
  rw [hpower] at htail
  refine ⟨[first], more, _, _, ?_, by simp, fun c hc => hrow c (by simp_all),
    fun c hc => hrow c (List.mem_cons_of_mem _ hc), htail, ?_⟩
  · unfold exponential
    dsimp only
    rw [hrowEq]
    cases more <;> simp [pointed]
  · rw [List.singleton_append, hvalue]
    rw [List.length_cons] at hpoint
    have hexponent : point - 1 - (more.length : Int) = exponent := by omega
    rw [hexponent]
    exact h

theorem IsLaidOut.isNumeral {chars whole part tail : List Char} {exponent : Int}
    (h : IsLaidOut i chars whole part tail exponent) : ∀ c ∈ chars, isNumeral c = true := by
  have hpointed : ∀ c ∈ pointed part, Numeral.isNumeral c = true := by
    cases part with
    | nil => simp [pointed]
    | cons first part => exact List.forall_mem_cons.2 ⟨rfl, h.isRow_part.isNumeral⟩
  intro c hc
  rw [h.text, List.mem_append, List.mem_append] at hc
  rcases hc with (hc | hc) | hc
  · exact h.isRow_whole.isNumeral c hc
  · exact hpointed c hc
  · exact h.isTail.isNumeral c hc

end

/-- The text of a finite double other than zero is a numeral with a value in its interval. -/
theorem layout_magnitude {x : Binary64} (hzero : x.isZero = false) :
    ∃ whole part tail exponent,
      IsLaidOut (interval x) (magnitude x) whole part tail exponent := by
  have hholds := holds_scaled hzero
  unfold magnitude
  rw [hzero, if_neg Bool.false_ne_true]
  generalize scaled x = found at hholds ⊢
  obtain ⟨digits, exponent⟩ := found
  dsimp only at hholds ⊢
  split
  · obtain ⟨whole, part, hlaid⟩ := layout_positional hholds
    exact ⟨whole, part, [], 0, hlaid⟩
  · exact layout_exponential hholds

/-- A text without a sign that reads as the magnitude of a double. -/
structure IsSpelled (chars : List Char) (x : Binary64) : Prop where
  read : Numeral.unsigned? Text.Digit.ascii? x.isNegative chars = some x
  unsigned : Numeral.sign chars = (false, chars)
  isNumeral : ∀ c ∈ chars, isNumeral c = true

theorem isSpelled_magnitude {x : Binary64} (hfinite : x.isFinite = true) :
    IsSpelled (magnitude x) x := by
  cases hzero : x.isZero with
  | true =>
    unfold magnitude
    rw [hzero, if_pos rfl]
    refine ⟨?_, rfl, List.all_eq_true.1 rfl⟩
    exact congrArg some (Binary64.zero_isNegative hzero)
  | false =>
    obtain ⟨whole, part, tail, exponent, hlaid⟩ := layout_magnitude hzero
    refine ⟨?_, ?_, hlaid.isNumeral⟩
    · rw [hlaid.text, Numeral.unsigned?_eq _ hlaid.nonempty hlaid.isRow_whole hlaid.isRow_part
        hlaid.isTail, hlaid.holds.ofDecimal_eq hfinite hzero]
    · obtain ⟨first, more, rfl⟩ := List.exists_cons_of_ne_nil hlaid.nonempty
      rw [hlaid.text]
      exact Numeral.sign_row (hlaid.isRow_whole first List.mem_cons_self) _

theorem isSpelled_infinity {x : Binary64} (hfinite : x.isFinite = false)
    (hnan : x.isNaN = false) : IsSpelled ['i', 'n', 'f'] x := by
  refine ⟨?_, rfl, List.all_eq_true.1 rfl⟩
  exact congrArg some (Binary64.infinity_isNegative hfinite hnan)

/-- A text of a magnitude is read with its sign in front. -/
theorem IsSpelled.plain?_eq {chars : List Char} {x : Binary64} (h : IsSpelled chars x) :
    Numeral.plain? (String.ofList (if x.isNegative then '-' :: chars else chars)) = some x := by
  have hread := h.read
  cases hnegative : x.isNegative with
  | true =>
    rw [hnegative] at hread
    rw [if_pos rfl]
    apply Numeral.plain?_eq_of_signed?
    · exact List.forall_mem_cons.2 ⟨rfl, h.isNumeral⟩
    · exact hread
  | false =>
    rw [hnegative] at hread
    rw [if_neg Bool.false_ne_true]
    apply Numeral.plain?_eq_of_signed? h.isNumeral
    unfold Numeral.signed?
    rw [h.unsigned]
    exact hread

/-- Doubles are written with the characters of numerals. -/
theorem isNumeral_ofBinary64 (x : Binary64) : ∀ c ∈ (ofBinary64 x).toList, isNumeral c = true := by
  have hsigned : ∀ {chars}, IsSpelled chars x →
      ∀ c ∈ (if x.isNegative then '-' :: chars else chars), Numeral.isNumeral c = true := by
    intro chars h
    split
    · exact List.forall_mem_cons.2 ⟨rfl, h.isNumeral⟩
    · exact h.isNumeral
  unfold ofBinary64
  cases hnan : x.isNaN with
  | true =>
    rw [if_pos rfl]
    exact List.all_eq_true.1 rfl
  | false =>
    rw [if_neg Bool.false_ne_true]
    dsimp only
    rw [String.toList_ofList]
    cases hfinite : x.isFinite with
    | true => exact hsigned (isSpelled_magnitude hfinite)
    | false => exact hsigned (isSpelled_infinity hfinite hnan)

/-- The text of a double is read back as it, unless it is not-a-number with a sign or with another
fraction than usual. -/
theorem plain?_ofBinary64_iff {x : Binary64} :
    Numeral.plain? (ofBinary64 x) = some x ↔ (x.isNaN = true → x = .nan false) := by
  unfold ofBinary64
  cases hnan : x.isNaN with
  | true =>
    have hread : Numeral.plain? "nan" = some (.nan false) := rfl
    rw [if_pos rfl, hread, Option.some_inj]
    exact ⟨fun h _ => h.symm, fun h => (h rfl).symm⟩
  | false =>
    rw [if_neg Bool.false_ne_true]
    refine ⟨fun _ h => absurd h Bool.false_ne_true, fun _ => ?_⟩
    dsimp only
    cases hfinite : x.isFinite with
    | true => exact (isSpelled_magnitude hfinite).plain?_eq
    | false => exact (isSpelled_infinity hfinite hnan).plain?_eq

end Shortest

/-! ## The text of a whole number -/

namespace Numeral

open Text.Blank (isWhite)

theorem head?_digits {n : Nat} (hpos : 0 < n) : (Decimal.digits n).head? ≠ some '0' := by
  unfold Decimal.digits
  induction n using Nat.strongRecOn with
  | ind n ih =>
    rcases Nat.lt_or_ge n 10 with hsmall | hlarge
    · rw [Nat.toDigits_of_lt_base hsmall]
      interval_cases n <;> decide
    · have hless := ih (n / 10) (by omega) (by omega)
      obtain ⟨c, chars, hdigits⟩ :=
        List.exists_cons_of_ne_nil (Nat.toDigits_ne_nil (n := n / 10) (b := 10))
      rw [hdigits] at hless
      rw [Nat.toDigits_of_base_le (by decide) hlarge, hdigits]
      exact hless

section

variable {row : List Char}

theorem IsRow.notMem (hrow : IsRow row) {c : Char} (hc : c.isDigit = false) : c ∉ row := by
  intro hmem
  rw [hrow c hmem] at hc
  cases hc

theorem IsRow.mapM_ascii? (hrow : IsRow row) :
    row.mapM Text.Digit.ascii? = some (row.map fun c => c.toNat - '0'.toNat) := by
  induction row with
  | nil => rfl
  | cons c row ih =>
    have hc : c.isDigit = true := hrow c List.mem_cons_self
    have hmore := ih fun d hd => hrow d (List.mem_cons_of_mem c hd)
    simp [Text.Digit.ascii?, hc, hmore]

theorem IsRow.dropPointZeros (hrow : IsRow row) : dropPointZeros row = row := by
  have hbody : row.takeWhile (· != '.') = row := by
    rw [List.takeWhile_eq_self_iff]
    intro c hc
    rw [bne_iff_ne]
    rintro rfl
    exact hrow.notMem rfl hc
  unfold Numeral.dropPointZeros
  dsimp only
  rw [hbody, List.drop_eq_nil_of_le (Nat.le_succ _)]
  rfl

theorem IsRow.dropUnderscores? (hrow : IsRow row) : dropUnderscores? row = some row := by
  have hnone : '_' ∉ row := hrow.notMem rfl
  unfold Numeral.dropUnderscores?
  rw [if_neg]
  · rw [List.filter_eq_self.2]
    intro c hc
    rw [bne_iff_ne]
    rintro rfl
    exact hnone hc
  · rw [Bool.or_eq_true, decide_eq_true_eq, List.any_eq_true]
    rintro (hlast | ⟨⟨c, d⟩, hpair, heq⟩)
    · exact hnone (List.mem_of_getLast? hlast)
    · rw [beq_iff_eq, Prod.mk.injEq] at heq
      exact hnone (heq.1 ▸ (List.of_mem_zip hpair).1)

theorem IsRow.digits? (hrow : IsRow row) (hne : row ≠ []) :
    digits? row = some (row.map fun c => c.toNat - '0'.toNat) := by
  unfold Numeral.digits?
  rw [if_neg (by simp [hne]), hrow.mapM_ascii?]

end

theorem wholeDigits?_digits (negative : Bool) (n : Nat) :
    ∃ ds, wholeDigits? negative (Decimal.digits n) = some ds ∧ Text.Digit.number ds = n := by
  have hrow := isRow_digits n
  have hplain : ((dropUnderscores? (Decimal.digits n)).bind digits?) =
      some ((Decimal.digits n).map fun c => c.toNat - '0'.toNat) := by
    rw [hrow.dropUnderscores?, Option.bind_some, hrow.digits? (digits_ne_nil n)]
  unfold wholeDigits?
  dsimp only
  rw [hrow.dropPointZeros]
  cases negative with
  | true => exact ⟨_, hplain, rowValue_digits n⟩
  | false =>
    rw [if_neg Bool.false_ne_true]
    split
    · rename_i hunderscore
      exact absurd (hunderscore ▸ List.mem_cons_self) (hrow.notMem (c := '_') rfl)
    · rename_i rest hzero
      have hn : n = 0 := by
        refine Nat.eq_zero_of_not_pos fun hpos => ?_
        exact head?_digits hpos (hzero ▸ rfl)
      subst hn
      exact ⟨[0], rfl, rfl⟩
    · exact ⟨_, hplain, rowValue_digits n⟩

/-- Whole numbers are written with the characters of numerals. -/
theorem isNumeral_ofInt (i : Int) : ∀ c ∈ (Decimal.ofInt i).toList, isNumeral c = true := by
  have hrow := (isRow_digits i.natAbs).isNumeral
  unfold Decimal.ofInt
  rw [String.toList_ofList]
  split
  · exact List.forall_mem_cons.2 ⟨rfl, hrow⟩
  · exact hrow

/-- The text of a whole number is read back as it, unless it is too long. -/
theorem whole_ofInt_iff {i : Int} :
    whole (Decimal.ofInt i) = .ok i ↔ (Decimal.ofInt i).utf8ByteSize ≤ maxWholeLength := by
  have hsolid : ∀ c ∈ (Decimal.ofInt i).toList, isWhite c = false :=
    fun c hc => isWhite_of_isNumeral (isNumeral_ofInt i c hc)
  unfold whole
  dsimp only
  rw [trimBoth_of_forall hsolid, String.ofList_toList]
  split
  · rename_i hlong
    refine ⟨fun h => ?_, fun h => absurd h (Nat.not_le_of_lt hlong)⟩
    cases h
  · rename_i hshort
    refine ⟨fun _ => Nat.le_of_not_lt hshort, fun _ => ?_⟩
    have hsign : sign (Decimal.ofInt i).toList = (decide (i < 0), Decimal.digits i.natAbs) := by
      unfold Decimal.ofInt
      rw [String.toList_ofList]
      split
      · rename_i hneg
        rw [decide_eq_true hneg]
        rfl
      · rename_i hpos
        rw [decide_eq_false hpos]
        have hrow := isRow_digits i.natAbs
        obtain ⟨c, chars, hchars⟩ := List.exists_cons_of_ne_nil (digits_ne_nil i.natAbs)
        rw [hchars] at hrow ⊢
        exact sign_row (hrow c List.mem_cons_self) chars
    obtain ⟨ds, hread, hnumber⟩ := wholeDigits?_digits (decide (i < 0)) i.natAbs
    rw [hsign]
    dsimp only
    rw [hread]
    dsimp only
    rw [hnumber]
    congr 1
    simp only [decide_eq_true_eq]
    split <;> omega

end Numeral

end Number

end RateLedger
