import RateLedger.Proofs.RecordForms

/-!
# Rows of fields

Fields are written one behind the other, and those that do not fit are refused. Each field that was
written is read again by its kind from the front of whatever follows it, so a row of any fields is
read back in order, bit by bit, and the reading stops where the row ends. It stops before only at a
text or byte string that is too long: its length is taken from the front, and its bytes are left
(`row_read_back`).
-/

namespace RateLedger.Record

open Number (twoTo)

namespace Field

/-- Whether a field can be written: the number that it writes, its value or its length, has a place
in its word, and its text has a form in UTF-8. -/
def Fits : Field → Prop
  | .unsigned value => 0 ≤ value ∧ value < 2 ^ 64
  | .signed value => -2 ^ 63 ≤ value ∧ value < 2 ^ 63
  | .double _ => True
  | .text (.plain value) => (Bytes.ofText value).length < 2 ^ 64
  | .text (.broken ..) => False
  | .bytes value => value.length < 2 ^ 64

instance : (field : Field) → Decidable field.Fits
  | .unsigned value => inferInstanceAs (Decidable (0 ≤ value ∧ value < 2 ^ 64))
  | .signed value => inferInstanceAs (Decidable (-2 ^ 63 ≤ value ∧ value < 2 ^ 63))
  | .double _ => inferInstanceAs (Decidable True)
  | .text (.plain value) => inferInstanceAs (Decidable ((Bytes.ofText value).length < 2 ^ 64))
  | .text (.broken ..) => inferInstanceAs (Decidable False)
  | .bytes value => inferInstanceAs (Decidable (value.length < 2 ^ 64))

/-- Why a field is refused that does not fit: its text has no form in UTF-8, or a number is beyond
its word. -/
def misfit : Field → Misfit
  | .text (.broken before half behind) => .text ⟨before.length, half, behind.halvesInFront⟩
  | _ => .number

/-- What comes of writing a field. -/
def verdict (field : Field) : Except Misfit Unit :=
  if field.Fits then .ok ⟨⟩ else .error field.misfit

/-- The bytes of a field that stand behind their length. -/
def content : Field → Bytes
  | .text value => value.utf8.toOption.getD []
  | .bytes value => value
  | .unsigned _ | .signed _ | .double _ => []

end Field

/-- Writes each field in turn, and says what came of each. -/
def tryAll (fields : List Field) : StateM Bytes (List (Except Misfit Unit)) :=
  fields.mapM fun field => field.write.run

/-- Reads a field of each kind in turn. -/
def readAll (kinds : List Kind) : Reading (List Field) := kinds.mapM Kind.read

/-! ## Writing -/

theorem fits_unsigned_iff {value : Int} :
    (Field.unsigned value).Fits ↔ Bytes.fitsUnsigned value = true := by
  rw [Bytes.fitsUnsigned_iff, Bytes.twoTo_word]
  rfl

theorem fits_signed_iff {value : Int} :
    (Field.signed value).Fits ↔ Bytes.fitsSigned value = true := by
  rw [Bytes.fitsSigned_iff, Bytes.twoTo_half]
  rfl

theorem fitsUnsigned_length_iff {bytes : Bytes} :
    Bytes.fitsUnsigned bytes.length = true ↔ bytes.length < 2 ^ 64 := by
  rw [Bytes.fitsUnsigned_iff, Bytes.twoTo_word]
  omega

theorem trySized_eq (bytes : Bytes) :
    trySized bytes = if bytes.length < 2 ^ 64 then .ok (sized bytes) else .error .number :=
  if_congr fitsUnsigned_length_iff rfl rfl

section

variable {field : Field}

/-- A field has a form exactly if it fits. -/
theorem form_eq (field : Field) :
    field.form = if field.Fits then .ok field.written else .error field.misfit := by
  have hsplit : ∀ {fits : Prop} [Decidable fits] {form : Bytes},
      field.form = (if fits then .ok form else .error field.misfit) → (field.Fits ↔ fits) →
      field.form = if field.Fits then .ok field.written else .error field.misfit := by
    intro fits _ form hform hfits
    by_cases h : fits
    · rw [if_pos h] at hform
      rw [if_pos (hfits.2 h), Field.written, hform]
      rfl
    · rw [if_neg h] at hform
      rw [if_neg (mt hfits.1 h), hform]
  cases field with
  | unsigned value => exact hsplit rfl fits_unsigned_iff
  | signed value => exact hsplit rfl fits_signed_iff
  | double value => exact hsplit (if_pos trivial).symm Iff.rfl
  | bytes value => exact hsplit (trySized_eq value) Iff.rfl
  | text value =>
    cases value with
    | plain value => exact hsplit (trySized_eq (Bytes.ofText value)) Iff.rfl
    | broken before half behind => exact (if_neg id).symm

theorem Field.Fits.length_lt (h : field.Fits) : field.content.length < twoTo 64 := by
  rw [Bytes.twoTo_word]
  cases field with
  | unsigned value | signed value | double value => exact Nat.zero_lt_succ _
  | bytes value => exact Nat.lt_of_lt_of_eq h rfl
  | text value =>
    cases value with
    | plain value => exact Nat.lt_of_lt_of_eq h rfl
    | broken before half behind => exact h.elim

theorem written_of_form {form : Bytes} (h : field.form = .ok form) : field.written = form := by
  rw [Field.written, h]
  rfl

/-- What stands behind its length is written with it. -/
theorem written_of_content {content : Bytes} (hform : field.form = trySized content)
    (hfits : content.length < 2 ^ 64) : field.written = sized content :=
  written_of_form (hform.trans ((trySized_eq content).trans (if_pos hfits)))

theorem run_write (field : Field) (written : Bytes) :
    field.write.run.run written =
      (field.verdict, written ++ if field.Fits then field.written else []) := by
  unfold Field.write Field.verdict
  rw [form_eq]
  by_cases h : field.Fits
  · simp only [if_pos h]
    rfl
  · simp only [if_neg h, List.append_nil]
    rfl

/-- A refused write changes nothing. -/
theorem run_write_of_misfit (h : ¬field.Fits) (written : Bytes) :
    field.write.run.run written = (.error field.misfit, written) := by
  rw [run_write, Field.verdict, if_neg h, if_neg h, List.append_nil]

theorem writeAll_cons (field : Field) (fields : List Field) :
    writeAll (field :: fields) = field.written ++ writeAll fields := List.flatMap_cons

theorem writeAll_append (before after : List Field) :
    writeAll (before ++ after) = writeAll before ++ writeAll after := List.flatMap_append

/-- What was written stays, and the fields that fit follow it. -/
theorem run_tryAll (fields : List Field) (written : Bytes) :
    (tryAll fields).run written =
      (fields.map Field.verdict, written ++ writeAll (fields.filter fun field => field.Fits)) := by
  induction fields generalizing written with
  | nil =>
    rw [List.filter_nil, writeAll, List.flatMap_nil, List.append_nil]
    rfl
  | cons field fields ih =>
    have hnext : (tryAll (field :: fields)).run written =
        StateT.run (tryAll fields >>= fun verdicts =>
          pure ((field.write.run.run written).1 :: verdicts)) (field.write.run.run written).2 := by
      unfold tryAll
      rw [List.mapM_cons]
      rfl
    rw [hnext, StateT.run_bind, List.map_cons, run_write, ih, List.append_assoc]
    by_cases hfits : field.Fits
    · rw [if_pos hfits, List.filter_cons_of_pos (by simpa using hfits), writeAll_cons]
      rfl
    · rw [if_neg hfits, List.filter_cons_of_neg (by simpa using hfits), List.nil_append]
      rfl

end

/-! ## Reading -/

section

variable {field : Field} {fields : List Field}

/-- A field is read back from the front of whatever follows. -/
theorem run_read (hfits : field.Fits) (hshort : field.content.length ≤ maxLength) (rest : Bytes) :
    field.kind.read.run.run (field.written ++ rest) = (.ok field, rest) := by
  cases field with
  | unsigned value =>
    have hwritten : (Field.unsigned value).written = Bytes.word value.toNat :=
      written_of_form (if_pos (fits_unsigned_iff.1 hfits))
    obtain ⟨hnonneg, hlt⟩ := hfits
    have hword : value.toNat < twoTo 64 := by
      rw [Bytes.twoTo_word]
      omega
    show ((fun value : Nat => Field.unsigned value) <$> Reading.unsigned).run.run _ = _
    rw [hwritten, run_map, run_unsigned hword]
    simp [Except.map, hnonneg]
  | signed value =>
    have hsigned := fits_signed_iff.1 hfits
    have hwritten : (Field.signed value).written = Bytes.signedWord value :=
      written_of_form (if_pos hsigned)
    show (Field.signed <$> Reading.signed).run.run _ = _
    rw [hwritten, run_map, run_signed hsigned]
    rfl
  | double value =>
    show (Field.double <$> Reading.double).run.run (Bytes.word value.word ++ rest) = _
    rw [run_map, run_double]
    rfl
  | text value =>
    cases value with
    | plain value =>
      have hwritten : (Field.text value).written = sized (Bytes.ofText value) :=
        written_of_content rfl hfits
      show ((fun value : String => Field.text value) <$> Reading.text).run.run _ = _
      rw [hwritten, run_map, run_text hshort]
      rfl
    | broken before half behind => exact hfits.elim
  | bytes value =>
    have hwritten : (Field.bytes value).written = sized value := written_of_content rfl hfits
    have hread : Reading.bytes.run.run (sized value ++ rest) = _ := run_bytes hshort rest
    show (Field.bytes <$> Reading.bytes).run.run _ = _
    rw [hwritten, run_map, hread]
    rfl

theorem written_of_tooLong (hfits : field.Fits) (hlong : maxLength < field.content.length) :
    field.written = sized field.content := by
  cases field with
  | unsigned value | signed value | double value => exact absurd hlong (Nat.not_lt_zero _)
  | bytes value => exact written_of_content rfl hfits
  | text value =>
    cases value with
    | plain value => exact written_of_content rfl hfits
    | broken before half behind => exact hfits.elim

/-- Of a field that is too long only the length is taken. -/
theorem run_read_tooLong (hfits : field.Fits) (hlong : maxLength < field.content.length)
    (rest : Bytes) :
    field.kind.read.run.run (field.written ++ rest) =
      (.error (.tooLong field.content.length), field.content ++ rest) := by
  have hword := hfits.length_lt
  rw [written_of_tooLong hfits hlong]
  cases field with
  | unsigned value | signed value | double value => exact absurd hlong (Nat.not_lt_zero _)
  | text value =>
    cases value with
    | plain value =>
      show ((fun value : String => Field.text value) <$> Reading.text).run.run
        (sized (Bytes.ofText value) ++ rest) = _
      rw [run_map, run_text_tooLong hlong hword]
      rfl
    | broken before half behind => exact hfits.elim
  | bytes value =>
    show (Field.bytes <$> Reading.bytes).run.run (sized value ++ rest) = _
    have hread : Reading.bytes.run.run (sized value ++ rest) = _ :=
      run_bytes_tooLong hlong hword rest
    rw [run_map, hread]
    rfl

/-- A row of fields is read back by its kinds, and what follows is left. -/
theorem run_readAll (hfits : ∀ field ∈ fields, field.Fits)
    (hshort : ∀ field ∈ fields, field.content.length ≤ maxLength) (rest : Bytes) :
    (readAll (fields.map Field.kind)).run.run (writeAll fields ++ rest) = (.ok fields, rest) := by
  unfold readAll
  induction fields with
  | nil => rfl
  | cons field fields ih =>
    rw [List.forall_mem_cons] at hfits hshort
    rw [List.map_cons, List.mapM_cons, writeAll_cons, List.append_assoc,
      run_bind_ok (run_read hfits.1 hshort.1 _), run_bind_ok (ih hfits.2 hshort.2)]
    rfl

/-- Reading stops at the first field that is too long. -/
theorem run_readAll_tooLong {long : Field} {after : List Field}
    (hfits : ∀ field ∈ fields, field.Fits)
    (hshort : ∀ field ∈ fields, field.content.length ≤ maxLength) (hlongFits : long.Fits)
    (hlong : maxLength < long.content.length) (rest : Bytes) :
    (readAll ((fields ++ long :: after).map Field.kind)).run.run
        (writeAll (fields ++ long :: after) ++ rest) =
      (.error (.tooLong long.content.length), long.content ++ (writeAll after ++ rest)) := by
  have hbefore := run_readAll hfits hshort (writeAll (long :: after) ++ rest)
  unfold readAll at hbefore ⊢
  rw [List.map_append, List.mapM_append, writeAll_append, List.append_assoc, run_bind_ok hbefore,
    List.map_cons, List.mapM_cons, writeAll_cons, List.append_assoc]
  exact run_bind_error (run_bind_error (run_read_tooLong hlongFits hlong _) _) _

end

/-- Whatever is written, in any order: a write whose number does not fit, or whose text has no form
in UTF-8, is refused and leaves the bytes written before it as they are, and every other write is
accepted. The accepted fields are read back by their kinds, in their order and bit by bit, and what
follows them is left, if no text or byte string is too long. Otherwise the first that is too long is
reported with its length: the fields in front of it are read back, the word of its length is taken,
and its bytes are left with all that follows. -/
theorem row_read_back (fields : List Field) (rest : Bytes) :
    let accepted := fields.filter fun field => field.Fits
    let verdicts := ((tryAll fields).run []).1
    let written := ((tryAll fields).run []).2
    verdicts = fields.map Field.verdict ∧
    (∀ field : Field, ¬field.Fits → ∀ before : Bytes,
      field.write.run.run before = (.error field.misfit, before)) ∧
    ((∀ field ∈ accepted, field.content.length ≤ maxLength) →
      (readAll (accepted.map Field.kind)).run.run (written ++ rest) = (.ok accepted, rest)) ∧
    ∀ before long after, accepted = before ++ long :: after →
      (∀ field ∈ before, field.content.length ≤ maxLength) → maxLength < long.content.length →
      (readAll (before.map Field.kind)).run.run (written ++ rest) =
        (.ok before, Bytes.word long.content.length ++ (long.content ++ (writeAll after ++ rest))) ∧
      (readAll (accepted.map Field.kind)).run.run (written ++ rest) =
        (.error (.tooLong long.content.length), long.content ++ (writeAll after ++ rest)) := by
  intro accepted verdicts written
  have haccepted : ∀ field ∈ accepted, field.Fits := fun field hfield => by
    simpa using (List.mem_filter.1 hfield).2
  have hwritten : written = writeAll accepted := by
    show ((tryAll fields).run []).2 = _
    rw [run_tryAll, List.nil_append]
  refine ⟨?_, fun field hmisfit before => run_write_of_misfit hmisfit before, ?_, ?_⟩
  · show ((tryAll fields).run []).1 = _
    rw [run_tryAll]
  · intro hshort
    rw [hwritten]
    exact run_readAll haccepted hshort rest
  · intro before long after hsplit hshort hlong
    have hfits : ∀ field ∈ before, field.Fits := fun field hfield =>
      haccepted field (hsplit ▸ List.mem_append_left _ hfield)
    have hlongFits : long.Fits :=
      haccepted long (hsplit ▸ List.mem_append_right _ List.mem_cons_self)
    rw [hwritten, hsplit]
    refine ⟨?_, run_readAll_tooLong hfits hshort hlongFits hlong rest⟩
    rw [writeAll_append, writeAll_cons, written_of_tooLong hlongFits hlong, List.append_assoc,
      run_readAll hfits hshort, sized]
    simp only [List.append_assoc]

/-- Fields of every kind, with numbers at and beyond the limits of their words, around a byte
string. -/
def mixedRow (middle : Bytes) : List Field :=
  [.unsigned (2 ^ 64), .signed (-2 ^ 63), .text "é", .unsigned (-1),
    .double ⟨0x7ff4000000000001⟩] ++
    .bytes middle :: [.signed (2 ^ 63), .bytes []]

theorem filter_mixedRow {middle : Bytes} (h : (Field.bytes middle).Fits) :
    ((mixedRow middle).filter fun field => field.Fits) =
      [.signed (-2 ^ 63), .text "é", .double ⟨0x7ff4000000000001⟩] ++
        .bytes middle :: [.bytes []] := by
  have hmiddle : ∀ others : List Field, (.bytes middle :: others).filter (fun field => field.Fits) =
      .bytes middle :: others.filter fun field => field.Fits := fun others =>
    List.filter_cons_of_pos (decide_eq_true h)
  unfold mixedRow
  rw [List.filter_append, hmiddle]
  rfl

theorem map_verdict_mixedRow {middle : Bytes} (h : (Field.bytes middle).Fits) :
    ((mixedRow middle).map Field.verdict).map Except.isOk =
      [false, true, true, false, true, true, false, true] := by
  have hverdict : (Field.bytes middle).verdict = .ok ⟨⟩ := if_pos h
  unfold mixedRow
  simp only [List.map_append, List.map_cons, hverdict]
  rfl

/-- Three writes are refused, and of the five fields that stay three stand before the bytes, which
are one too many to be read. -/
theorem row_read_back_mixed :
    let long : Bytes := List.replicate 4000001 0
    let written := ((tryAll (mixedRow long)).run []).2
    ((tryAll (mixedRow long)).run []).1.map Except.isOk =
        [false, true, true, false, true, true, false, true] ∧
      (readAll [.signed, .text, .double, .bytes, .bytes]).run.run (written ++ [7]) =
        (.error (.tooLong 4000001), long ++ (writeAll [.bytes []] ++ [7])) := by
  have hlength : (List.replicate 4000001 (0 : UInt8)).length = 4000001 := List.length_replicate
  generalize List.replicate 4000001 (0 : UInt8) = long at hlength
  obtain ⟨hverdicts, -, -, hlong⟩ := row_read_back (mixedRow long) [7]
  have hfits : (Field.bytes long).Fits := by
    show long.length < 2 ^ 64
    rw [hlength]
    decide
  have hcontent : (Field.bytes long).content.length = 4000001 := hlength
  obtain ⟨-, hread⟩ := hlong _ _ _ (filter_mixedRow hfits) (by decide) (by rw [hcontent]; decide)
  rw [hcontent, filter_mixedRow hfits] at hread
  refine ⟨?_, hread⟩
  rw [hverdicts, map_verdict_mixedRow hfits]

end RateLedger.Record
