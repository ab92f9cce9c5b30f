import RateLedger.Proofs.KeyOrder
import RateLedger.Proofs.Records

/-!
# The form of a record

A reading step gives a value exactly when what is left starts with the written form of that value:
eight bytes are the word of the number that they stand for, and a text has one form in UTF-8. So a
byte string is read as an observation exactly when it is the record of that observation and its
codes are short enough (`Record.decode_eq_ok_iff`). A code that is too long is written all the same,
and refused by its length when it is read.
-/

namespace RateLedger

open Number (twoTo)

namespace Bytes

theorem toNat_inj {a b : Bytes} (h : a.length = b.length) : toNat a = toNat b ↔ a = b := by
  constructor
  · intro heq
    by_contra hne
    have hle : ¬a < b := by
      rw [lt_iff_toNat_lt h, heq]
      exact Nat.lt_irrefl _
    have hlt : b < a := Table.lt_of_not_lt_of_ne hle hne
    rw [lt_iff_toNat_lt h.symm, heq] at hlt
    exact Nat.lt_irrefl _ hlt
  · rintro rfl
    rfl

section

variable {bytes : Bytes}

theorem toNat_lt_word (h : bytes.length = 8) : toNat bytes < twoTo 64 := by
  have hlt := toNat_lt bytes
  rw [h] at hlt
  exact hlt

theorem word_toNat (h : bytes.length = 8) : word (toNat bytes) = bytes := by
  refine (toNat_inj ?_).1 ?_
  · rw [length_word, h]
  · rw [toNat_word, Nat.mod_eq_of_lt (toNat_lt_word h)]

theorem fitsSigned_toInt (h : bytes.length = 8) : fitsSigned (toInt bytes) = true := by
  have hlt := toNat_lt_word h
  rw [twoTo_word] at hlt
  rw [fitsSigned_iff, toInt, twoTo_half, twoTo_word]
  split <;> omega

theorem signedWord_toInt (h : bytes.length = 8) : signedWord (toInt bytes) = bytes := by
  have hlt := toNat_lt_word h
  have hnat : (toInt bytes % twoTo 64).toNat = toNat bytes := by
    rw [twoTo_word] at hlt ⊢
    rw [toInt, twoTo_half, twoTo_word]
    split <;> omega
  rw [signedWord, hnat, word_toNat h]

end

end Bytes

namespace Record

/-! ## What a reading step gives -/

section

variable {left rest : Bytes}

theorem run_bind_eq_ok_iff {step : Reading α} {next : α → Reading β} {b : β} :
    (step >>= next).run.run left = (.ok b, rest) ↔
      ∃ a mid, step.run.run left = (.ok a, mid) ∧ (next a).run.run mid = (.ok b, rest) := by
  rw [run_bind]
  rcases step.run.run left with ⟨_ | a, mid⟩
  · constructor
    · nofun
    · rintro ⟨_, _, hstep, -⟩
      cases hstep
  · constructor
    · exact fun hnext => ⟨a, mid, rfl, hnext⟩
    · rintro ⟨_, _, hstep, hnext⟩
      cases hstep
      exact hnext

theorem run_map_eq_ok_iff {f : α → β} {step : Reading α} {b : β} :
    (f <$> step).run.run left = (.ok b, rest) ↔
      ∃ a, step.run.run left = (.ok a, rest) ∧ f a = b := by
  rw [run_map]
  rcases step.run.run left with ⟨_ | a, mid⟩
  · constructor
    · nofun
    · rintro ⟨_, hstep, -⟩
      cases hstep
  · constructor
    · rintro ⟨⟩
      exact ⟨a, rfl, rfl⟩
    · rintro ⟨_, hstep, rfl⟩
      cases hstep
      rfl

theorem run_take_eq_ok_iff {count : Nat} {front : Bytes} :
    (Reading.take count).run.run left = (.ok front, rest) ↔
      front.length = count ∧ left = front ++ rest := by
  constructor
  · intro h
    change (if left.length < count then _ else _ : Reading Bytes).run.run left = _ at h
    by_cases hshort : left.length < count
    · rw [if_pos hshort] at h
      cases h
    · rw [if_neg hshort] at h
      change (Except.ok (left.take count), left.drop count) = _ at h
      obtain ⟨hfront, rfl⟩ := Prod.mk.inj h
      obtain rfl := Except.ok.inj hfront
      exact ⟨List.length_take_of_le (Nat.not_lt.1 hshort), (List.take_append_drop _ _).symm⟩
  · rintro ⟨hlength, rfl⟩
    exact run_take hlength rest

theorem run_unsigned_eq_ok_iff {n : Nat} :
    Reading.unsigned.run.run left = (.ok n, rest) ↔
      n < twoTo 64 ∧ left = Bytes.word n ++ rest := by
  constructor
  · intro h
    obtain ⟨front, htake, rfl⟩ := run_map_eq_ok_iff.1 h
    obtain ⟨hlength, rfl⟩ := run_take_eq_ok_iff.1 htake
    exact ⟨Bytes.toNat_lt_word hlength, by rw [Bytes.word_toNat hlength]⟩
  · rintro ⟨hlt, rfl⟩
    exact run_unsigned hlt rest

theorem run_signed_eq_ok_iff {i : Int} :
    Reading.signed.run.run left = (.ok i, rest) ↔
      Bytes.fitsSigned i = true ∧ left = Bytes.signedWord i ++ rest := by
  constructor
  · intro h
    obtain ⟨front, htake, rfl⟩ := run_map_eq_ok_iff.1 h
    obtain ⟨hlength, rfl⟩ := run_take_eq_ok_iff.1 htake
    exact ⟨Bytes.fitsSigned_toInt hlength, by rw [Bytes.signedWord_toInt hlength]⟩
  · rintro ⟨hfits, rfl⟩
    exact run_signed hfits rest

/-- Every word is that of a double: no bits are changed on the way in. -/
theorem run_double_eq_ok_iff {x : Binary64} :
    Reading.double.run.run left = (.ok x, rest) ↔ left = Bytes.word x.word ++ rest := by
  constructor
  · intro h
    obtain ⟨front, htake, rfl⟩ := run_map_eq_ok_iff.1 h
    obtain ⟨hlength, rfl⟩ := run_take_eq_ok_iff.1 htake
    rw [Binary64.word_ofWord (Bytes.toNat_lt_word hlength), Bytes.word_toNat hlength]
  · rintro rfl
    exact run_double x rest

theorem run_bytes_eq_ok_iff {bytes : Bytes} :
    Reading.bytes.run.run left = (.ok bytes, rest) ↔
      bytes.length ≤ maxLength ∧ left = sized bytes ++ rest := by
  constructor
  · intro h
    obtain ⟨length, mid, hunsigned, hread⟩ := run_bind_eq_ok_iff.1 h
    obtain ⟨-, rfl⟩ := run_unsigned_eq_ok_iff.1 hunsigned
    change (if maxLength < length then _ else if mid.length < length then _ else _ :
      Reading Bytes).run.run mid = _ at hread
    by_cases hlong : maxLength < length
    · rw [if_pos hlong] at hread
      cases hread
    · rw [if_neg hlong] at hread
      by_cases hshort : mid.length < length
      · rw [if_pos hshort] at hread
        cases hread
      · rw [if_neg hshort] at hread
        obtain ⟨rfl, rfl⟩ := run_take_eq_ok_iff.1 hread
        exact ⟨Nat.not_lt.1 hlong, by rw [sized, List.append_assoc]⟩
  · rintro ⟨hlength, rfl⟩
    exact run_bytes hlength rest

theorem run_text_eq_ok_iff {text : String} :
    Reading.text.run.run left = (.ok text, rest) ↔
      (Bytes.ofText text).length ≤ maxLength ∧ left = sized (Bytes.ofText text) ++ rest := by
  constructor
  · intro h
    obtain ⟨bytes, mid, hbytes, hvalue⟩ := run_bind_eq_ok_iff.1 h
    obtain ⟨hlength, rfl⟩ := run_bytes_eq_ok_iff.1 hbytes
    cases htext : Bytes.toText? bytes with
    | none =>
      rw [htext] at hvalue
      cases hvalue
    | some value =>
      rw [htext] at hvalue
      cases hvalue
      obtain rfl := Bytes.toText?_eq_some_iff.1 htext
      exact ⟨hlength, rfl⟩
  · rintro ⟨hlength, rfl⟩
    exact run_text hlength rest

/-- What writing a field adds to what is written. -/
def Field.written (field : Field) : Bytes := field.form.toOption.getD []

/-- The written form of the fields that can be written, in order. -/
def writeAll (fields : List Field) : Bytes := fields.flatMap Field.written

/-- The fields that a record consists of. -/
def fields (base quote : String) (rate : Binary64) (seconds : Int) : List Field :=
  [.text base, .text quote, .double rate, .signed seconds]

/-- The values read are those whose fields are what is taken from the front. -/
theorem run_values_eq_ok_iff {base quote : String} {rate : Binary64} {seconds : Int} :
    values.run.run left = (.ok (base, quote, rate, seconds), rest) ↔
      ((Bytes.ofText base).length ≤ maxLength ∧ (Bytes.ofText quote).length ≤ maxLength ∧
        Bytes.fitsSigned seconds = true) ∧
      left = sized (Bytes.ofText base) ++ (sized (Bytes.ofText quote) ++
        (Bytes.word rate.word ++ (Bytes.signedWord seconds ++ rest))) := by
  constructor
  · intro h
    obtain ⟨base', left, htext, h⟩ := run_bind_eq_ok_iff.1 h
    obtain ⟨quote', left, htext', h⟩ := run_bind_eq_ok_iff.1 h
    obtain ⟨rate', left, hdouble, h⟩ := run_bind_eq_ok_iff.1 h
    obtain ⟨seconds', left, hsigned, h⟩ := run_bind_eq_ok_iff.1 h
    cases h
    obtain ⟨hbase, rfl⟩ := run_text_eq_ok_iff.1 htext
    obtain ⟨hquote, rfl⟩ := run_text_eq_ok_iff.1 htext'
    obtain rfl := run_double_eq_ok_iff.1 hdouble
    obtain ⟨hseconds, rfl⟩ := run_signed_eq_ok_iff.1 hsigned
    exact ⟨⟨hbase, hquote, hseconds⟩, rfl⟩
  · rintro ⟨⟨hbase, hquote, hseconds⟩, rfl⟩
    unfold values
    rw [run_bind_ok (run_text hbase _), run_bind_ok (run_text hquote _),
      run_bind_ok (run_double rate _), run_bind_ok (run_signed hseconds rest)]
    rfl

end

/-! ## What is decoded -/

section

variable {base quote : String} {rate : Binary64} {seconds : Int}

/-- Stored values are refused unless they keep the rules of an observation. -/
theorem exists_observation_iff :
    (∃ x, observation base quote rate seconds = .ok x) ↔
      base ≠ "" ∧ quote ≠ "" ∧ base ≠ quote ∧
        rate.isFinite = true ∧ rate.isBelowZero = false ∧
        0 ≤ seconds ∧ seconds ≤ Time.maxSecond := by
  have hrate : rate.isRate = true ↔ rate.isFinite = true ∧ rate.isBelowZero = false := by
    rw [Binary64.isRate, Bool.and_eq_true, Bool.not_eq_true']
  constructor
  · rintro ⟨x, hx⟩
    obtain ⟨rfl, rfl, rfl, rfl⟩ := observation_eq_ok_iff.1 hx
    obtain ⟨hfinite, hbelow⟩ := hrate.1 x.isRate
    exact ⟨x.base_ne, x.quote_ne, x.differ, hfinite, hbelow, Int.natCast_nonneg _,
      Int.ofNat_le.2 x.inTime⟩
  · rintro ⟨hbase, hquote, hdiffer, hfinite, hbelow, hseconds, htime⟩
    refine ⟨⟨base, quote, rate, seconds.toNat, hbase, hquote, hdiffer,
      hrate.2 ⟨hfinite, hbelow⟩, by omega⟩, ?_⟩
    exact observation_eq_ok_iff.2 ⟨rfl, rfl, rfl, Int.toNat_of_nonneg hseconds⟩

theorem trySized_of_short {bytes : Bytes} (h : bytes.length ≤ maxLength) :
    trySized bytes = .ok (sized bytes) := by
  refine if_pos (Bytes.fitsUnsigned_iff.2 ?_)
  rw [Bytes.twoTo_word]
  unfold maxLength at h
  omega

theorem writeAll_fields (hbase : (Bytes.ofText base).length ≤ maxLength)
    (hquote : (Bytes.ofText quote).length ≤ maxLength)
    (hseconds : Bytes.fitsSigned seconds = true) :
    writeAll (fields base quote rate seconds) = sized (Bytes.ofText base) ++
      (sized (Bytes.ofText quote) ++
        (Bytes.word rate.word ++ (Bytes.signedWord seconds ++ []))) := by
  have hform : ∀ {text : String}, (Bytes.ofText text).length ≤ maxLength →
      (Field.text text).written = sized (Bytes.ofText text) := fun h =>
    congrArg (fun form => form.toOption.getD []) (trySized_of_short h)
  have hlast : (Field.signed seconds).written = Bytes.signedWord seconds :=
    congrArg (fun form : Except Misfit Bytes => form.toOption.getD []) (if_pos hseconds)
  simp only [writeAll, fields, List.flatMap_cons, List.flatMap_nil, hform hbase, hform hquote,
    hlast]
  rfl

/-- Written fields are read back whether or not they make an observation. -/
theorem decode_fields (hbase : (Bytes.ofText base).length ≤ maxLength)
    (hquote : (Bytes.ofText quote).length ≤ maxLength)
    (hseconds : Bytes.fitsSigned seconds = true) :
    decode (writeAll (fields base quote rate seconds)) = observation base quote rate seconds := by
  rw [decode, run_values_eq_ok_iff.2
    ⟨⟨hbase, hquote, hseconds⟩, writeAll_fields hbase hquote hseconds⟩]
  rfl

/-- Exactly the record of an observation is read as the observation. -/
theorem decode_eq_ok_iff {bytes : Bytes} {x : Observation} :
    decode bytes = .ok x ↔ x.IsReadable ∧ x.toRecord = bytes := by
  constructor
  · intro h
    unfold decode at h
    split at h
    · cases h
    · rename_i base quote rate seconds left hrun
      split at h
      · rename_i hleft
        obtain rfl := List.isEmpty_iff.1 hleft
        obtain ⟨rfl, rfl, rfl, rfl⟩ := observation_eq_ok_iff.1 h
        obtain ⟨⟨hbase, hquote, -⟩, rfl⟩ := run_values_eq_ok_iff.1 hrun
        refine ⟨⟨hbase, hquote⟩, ?_⟩
        rw [Observation.toRecord, ofCodes, List.append_nil]
        simp only [List.append_assoc]
      · cases h
  · rintro ⟨hreadable, rfl⟩
    exact decode_toRecord hreadable

end

/-- The format of records is canonical: what is decoded keeps the rules of an observation and is
encoded as the bytes that it was decoded from, so no two byte strings are decoded to one
observation, and the byte strings that are decoded are the records of the observations with short
codes. Of written fields, those are decoded that keep the rules. -/
theorem decode_canonical :
    (∀ bytes x, decode bytes = .ok x →
      (x.base ≠ "" ∧ x.quote ≠ "" ∧ x.base ≠ x.quote ∧
        x.rate.isFinite = true ∧ x.rate.isBelowZero = false ∧
        0 ≤ x.seconds ∧ x.seconds ≤ Time.maxSecond) ∧
      x.toRecord = bytes) ∧
    (∀ a b x, decode a = .ok x → decode b = .ok x → a = b) ∧
    (∀ bytes, (∃ x, decode bytes = .ok x) ↔
      ∃ x : Observation, x.IsReadable ∧ x.toRecord = bytes) ∧
    ∀ base quote rate seconds, (Bytes.ofText base).length ≤ maxLength →
      (Bytes.ofText quote).length ≤ maxLength → Bytes.fitsSigned seconds = true →
      ((∃ x, decode (writeAll (fields base quote rate seconds)) = .ok x) ↔
        base ≠ "" ∧ quote ≠ "" ∧ base ≠ quote ∧
          rate.isFinite = true ∧ rate.isBelowZero = false ∧
          0 ≤ seconds ∧ seconds ≤ Time.maxSecond) := by
  refine ⟨fun bytes x h => ?_, fun a b x ha hb => ?_, fun bytes => ?_, ?_⟩
  · obtain ⟨hfinite, hbelow⟩ : x.rate.isFinite = true ∧ x.rate.isBelowZero = false := by
      have hrate := x.isRate
      rwa [Binary64.isRate, Bool.and_eq_true, Bool.not_eq_true'] at hrate
    exact ⟨⟨x.base_ne, x.quote_ne, x.differ, hfinite, hbelow, Nat.zero_le _, x.inTime⟩,
      (decode_eq_ok_iff.1 h).2⟩
  · exact (decode_eq_ok_iff.1 ha).2.symm.trans (decode_eq_ok_iff.1 hb).2
  · exact exists_congr fun x => decode_eq_ok_iff
  · intro base quote rate seconds hbase hquote hseconds
    rw [decode_fields hbase hquote hseconds]
    exact exists_observation_iff

end Record

/-! ## Codes that are too long -/

/-- The length in bytes of the first code that is too long to be read back. -/
def Observation.tooLong? (x : Observation) : Option Nat :=
  ([x.base, x.quote].map fun code => (Bytes.ofText code).length).find? (Record.maxLength < ·)

namespace Record

theorem run_bind_error {step : Reading α} {left rest : Bytes} {fault : Fault}
    (h : step.run.run left = (.error fault, rest)) (next : α → Reading β) :
    (step >>= next).run.run left = (.error fault, rest) := by
  rw [run_bind, h]

/-- Bytes that are too long are refused once their length is read. -/
theorem run_bytes_tooLong {bytes : Bytes} (hlong : maxLength < bytes.length)
    (hword : bytes.length < twoTo 64) (rest : Bytes) :
    Reading.bytes.run.run (sized bytes ++ rest) =
      (.error (.tooLong bytes.length), bytes ++ rest) := by
  unfold Reading.bytes sized
  rw [List.append_assoc, run_bind_ok (run_unsigned hword _)]
  show (if maxLength < bytes.length then _ else _ : Reading Bytes).run.run _ = _
  rw [if_pos hlong]
  rfl

theorem run_text_tooLong {text : String} (hlong : maxLength < (Bytes.ofText text).length)
    (hword : (Bytes.ofText text).length < twoTo 64) (rest : Bytes) :
    Reading.text.run.run (sized (Bytes.ofText text) ++ rest) =
      (.error (.tooLong (Bytes.ofText text).length), Bytes.ofText text ++ rest) :=
  run_bind_error (run_bytes_tooLong hlong hword rest) _

theorem decode_error {bytes rest : Bytes} {fault : Fault}
    (h : values.run.run bytes = (.error fault, rest)) : decode bytes = .error fault := by
  rw [decode, h]

/-- The codes are read in their order, so the first one that is too long is reported. -/
theorem decode_tooLong {x : Observation} {length : Nat} (h : x.tooLong? = some length)
    (hword : length < twoTo 64) : decode x.toRecord = .error (.tooLong length) := by
  unfold Observation.toRecord ofCodes
  simp only [List.append_assoc]
  by_cases hbase : maxLength < (Bytes.ofText x.base).length
  · have hlength : (Bytes.ofText x.base).length = length := by
      simpa [Observation.tooLong?, hbase] using h
    subst hlength
    exact decode_error (run_bind_error (run_text_tooLong hbase hword _) _)
  · obtain ⟨hquote, hlength⟩ : maxLength < (Bytes.ofText x.quote).length ∧
        (Bytes.ofText x.quote).length = length := by
      simpa [Observation.tooLong?, hbase] using h
    subst hlength
    have hread := run_text (Nat.not_lt.1 hbase) (sized (Bytes.ofText x.quote) ++
      (Bytes.word x.rate.word ++ Bytes.signedWord x.seconds))
    refine decode_error (?_ : _ = (_, Bytes.ofText x.quote ++
      (Bytes.word x.rate.word ++ Bytes.signedWord x.seconds)))
    unfold values
    rw [run_bind_ok hread]
    exact run_bind_error (run_text_tooLong hquote hword _) _

end Record

namespace Observation

open Record

theorem isReadable_iff {x : Observation} : x.IsReadable ↔ x.tooLong? = none := by
  simp [IsReadable, tooLong?]

/-- A code of `n` letters. -/
def longCode (n : Nat) : String := String.ofList (List.replicate n 'U')

theorem length_longCode (n : Nat) : (Bytes.ofText (longCode n)).length = n := by
  rw [Bytes.ofText_eq_flatMap, longCode, String.toList_ofList, List.length_flatMap,
    List.map_replicate, List.sum_replicate_nat]
  exact Nat.mul_one n

/-- An observation with the rate minus zero, of a quote with a code of `n` letters. -/
def lengthy (n : Nat) (h : 3 < n) : Observation where
  base := "USD"
  quote := longCode n
  rate := ⟨9223372036854775808⟩
  seconds := 0
  base_ne := by decide
  quote_ne heq := by
    have hlength : 0 = n := (congrArg (fun code => (Bytes.ofText code).length) heq).symm.trans
      (length_longCode n)
    omega
  differ heq := by
    have hlength : 3 = n := (congrArg (fun code => (Bytes.ofText code).length) heq).trans
      (length_longCode n)
    omega
  isRate := by decide
  inTime := Nat.zero_le _

theorem tooLong?_lengthy {n : Nat} (h : 3 < n) (hlong : maxLength < n) :
    (lengthy n h).tooLong? = some n := by
  have hbase : ¬maxLength < (Bytes.ofText (lengthy n h).base).length := by
    change ¬4000000 < 3
    decide
  have hquote : (Bytes.ofText (lengthy n h).quote).length = n := length_longCode n
  simp [tooLong?, hbase, hquote, hlong]

end Observation

/-! ## Encoding and decoding -/

namespace Sighting

open Record

theorem encode_eq_ok_iff {y : Sighting} {bytes : Bytes} :
    y.encode = .ok bytes ↔ ∃ x : Observation, y = x ∧ bytes = x.toRecord := by
  rw [encode_eq]
  cases hstored : y.stored with
  | error flaw =>
    refine ⟨nofun, ?_⟩
    rintro ⟨x, rfl, -⟩
    cases hstored
  | ok x =>
    obtain rfl := stored_eq_ok_iff.1 hstored
    constructor
    · exact fun h => ⟨x, rfl, (Except.ok.inj h).symm⟩
    · rintro ⟨z, hz, rfl⟩
      obtain rfl : x = z := ofObservation_inj hz
      rfl

theorem encode_eq_error_iff {y : Sighting} {flaw : Text.Flaw} :
    y.encode = .error flaw ↔ y.base.checked = .error flaw ∨
      (∃ base, y.base.checked = .ok base) ∧ y.quote.checked = .error flaw := by
  rw [← stored_eq_error_iff, encode_eq]
  cases y.stored <;> simp [Except.map]

/-- A sighting is encoded exactly if both of its codes have a form in UTF-8; otherwise the halves of
surrogate pairs that stand first are reported, those of the base before those of the quote. Then it
is the sighting of an observation, which is decoded again, bit by bit, if its codes are short
enough; otherwise the first code that is too long is reported with its length. A length fits into
its word, as that of every text which has its place in a memory of `2 ^ 64` bytes. -/
theorem encode_and_decode (y : Sighting) :
    ((∃ bytes, y.encode = .ok bytes) ↔
      ∃ base quote : String, y.base = base ∧ y.quote = quote) ∧
    (∀ flaw, y.encode = .error flaw ↔ y.base.checked = .error flaw ∨
      (∃ base, y.base.checked = .ok base) ∧ y.quote.checked = .error flaw) ∧
    ∀ bytes, y.encode = .ok bytes → ∃ x : Observation, y = x ∧
      (x.IsReadable → decode bytes = .ok x) ∧
      (¬x.IsReadable → ∃ length, x.tooLong? = some length ∧
        (length < twoTo 64 → decode bytes = .error (.tooLong length))) := by
  refine ⟨⟨?_, ?_⟩, fun flaw => encode_eq_error_iff, fun bytes h => ?_⟩
  · rintro ⟨bytes, h⟩
    obtain ⟨x, rfl, -⟩ := encode_eq_ok_iff.1 h
    exact ⟨x.base, x.quote, rfl, rfl⟩
  · rintro ⟨base, quote, hbase, hquote⟩
    unfold encode
    rw [hbase, hquote]
    exact ⟨_, rfl⟩
  · obtain ⟨x, rfl, rfl⟩ := encode_eq_ok_iff.1 h
    refine ⟨x, rfl, decode_toRecord, fun hlong => ?_⟩
    obtain ⟨length, hlength⟩ :=
      Option.ne_none_iff_exists'.1 (mt Observation.isReadable_iff.2 hlong)
    exact ⟨length, hlength, decode_tooLong hlength⟩

/-- A sighting whose quote is half of a surrogate pair. -/
def halved : Sighting :=
  ⟨"USD", .broken "" 0 (.plain ""), ⟨9223372036854775808⟩, 0, by decide, by decide, by decide,
    by decide, Nat.zero_le _⟩

theorem encode_and_decode_halved :
    halved.encode = .error ⟨0, 0, 0⟩ ∧
      let x := Observation.lengthy 4000001 (by decide)
      (x : Sighting).encode = .ok x.toRecord ∧ decode x.toRecord = .error (.tooLong 4000001) := by
  refine ⟨((encode_and_decode halved).2.1 _).2 (.inr ⟨⟨"USD", rfl⟩, rfl⟩), ?_⟩
  intro x
  have hencode : (x : Sighting).encode = .ok x.toRecord := encode_eq_ok_iff.2 ⟨x, rfl, rfl⟩
  have hlong := Observation.tooLong?_lengthy (n := 4000001) (by decide) (by decide)
  obtain ⟨z, hz, -, hdecode⟩ := (encode_and_decode x).2.2 _ hencode
  obtain rfl : x = z := ofObservation_inj hz
  have hreadable : ¬x.IsReadable := by
    rw [Observation.isReadable_iff, hlong]
    nofun
  obtain ⟨length, hlength, hfails⟩ := hdecode hreadable
  obtain rfl := Option.some.inj (hlong.symm.trans hlength)
  exact ⟨hencode, hfails (by decide)⟩

end Sighting

end RateLedger
