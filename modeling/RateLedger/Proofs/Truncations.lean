import RateLedger.Proofs.RecordForms
import RateLedger.Proofs.Runs

/-!
# Records that are cut short or go on

A record tells where it ends. Each reading step takes the front that was written for it, whatever
follows, and fails on every shorter part of that front (`Delimits`); a row of steps does the same
with the row of their fronts. So a record that is cut short is refused by the step that the cut
falls to: inside a code its length exceeds the bytes left, and anywhere else the bytes end
(`decode_take`). A record that goes on is read to its end and refused for what follows
(`decode_append`). Hence no record of an observation with short codes is the start of another one
(`toRecord_prefix_iff`).
-/

namespace RateLedger

namespace Record

/-- The bytes end before a field does. -/
def Fault.isEnd : Fault → Bool
  | .tooShort _ _ => true
  | _ => false

/-- The bytes contradict each other or what they should stand for. -/
def Fault.isCorruption : Fault → Bool
  | .tooLong _ | .tooShort _ _ => false
  | _ => true

/-- The fault of a cut behind some bytes of two fronts, of which the first has a length. -/
def Fault.inTurn (length : Nat) (first second : Nat → Fault) (kept : Nat) : Fault :=
  if kept < length then first kept else second (kept - length)

/-- The fault of a cut behind some bytes of a text with its length. -/
def Fault.inText (length : Nat) : Nat → Fault :=
  .inTurn 8 (.tooShort 8) (.badLength length)

/-- The fault of a cut behind some bytes of the record of an observation. -/
def Fault.inRecord (x : Observation) : Nat → Fault :=
  let base := (Bytes.ofText x.base).length
  let quote := (Bytes.ofText x.quote).length
  .inTurn (8 + base) (.inText base) <|
    .inTurn (8 + quote) (.inText quote) <|
      .inTurn 8 (.tooShort 8) (.tooShort 8)

@[simp] theorem length_sized (bytes : Bytes) : (sized bytes).length = 8 + bytes.length := by
  rw [sized, List.length_append, Bytes.length_word]

/-! ## Steps that tell where they end -/

/-- A reading step takes a front for a value, whatever follows, and fails where the front is cut. -/
structure Delimits (step : Reading α) (front : Bytes) (a : α) (fault : Nat → Fault) : Prop where
  whole : ∀ rest, step.run.run (front ++ rest) = (.ok a, rest)
  cut : ∀ kept, kept < front.length → (step.run.run (front.take kept)).1 = .error (fault kept)

section

variable {step : Reading α} {next : α → Reading β} {front back : Bytes} {a : α} {b : β}
  {f g : Nat → Fault}

theorem run_bind_fault {left : Bytes} {fault : Fault}
    (h : (step.run.run left).1 = .error fault) (next : α → Reading β) :
    ((step >>= next).run.run left).1 = .error fault := by
  have hrun : step.run.run left = (.error fault, (step.run.run left).2) := Prod.ext h rfl
  rw [run_bind_error hrun]

/-- What comes after a step without taking anything leaves its cuts. -/
theorem Delimits.followed (h : Delimits step front a f)
    (hnext : ∀ rest, (next a).run.run rest = (.ok b, rest)) :
    Delimits (step >>= next) front b f where
  whole rest := by rw [run_bind_ok (h.whole rest), hnext]
  cut kept hkept := run_bind_fault (h.cut kept hkept) next

theorem Delimits.bind (h : Delimits step front a f) (hnext : Delimits (next a) back b g) :
    Delimits (step >>= next) (front ++ back) b (.inTurn front.length f g) where
  whole rest := by rw [List.append_assoc, run_bind_ok (h.whole _), hnext.whole]
  cut kept hkept := by
    unfold Fault.inTurn
    by_cases hin : kept < front.length
    · rw [if_pos hin, List.take_append_of_le_length (Nat.le_of_lt hin)]
      exact run_bind_fault (h.cut kept hin) next
    · -- The cut falls to the second front, so the first one is there as a whole.
      have hfront : front.length ≤ kept := Nat.not_lt.1 hin
      have hback : kept - front.length < back.length := by
        rw [List.length_append] at hkept
        omega
      rw [if_neg hin, List.take_append, List.take_of_length_le hfront, run_bind_ok (h.whole _)]
      exact hnext.cut _ hback

end

theorem delimits_take {front : Bytes} {count : Nat} (h : front.length = count) :
    Delimits (Reading.take count) front front (.tooShort count) where
  whole := run_take h
  cut kept hkept := by
    have hlength : (front.take kept).length = kept := List.length_take_of_le (Nat.le_of_lt hkept)
    have hshort : (front.take kept).length < count := by omega
    show ((if (front.take kept).length < count then _ else _ : Reading Bytes).run.run _).1 = _
    rw [if_pos hshort, hlength]
    rfl

/-- A value made of a word is cut like the word. -/
theorem delimits_map_word {make : Bytes → α} {word : Bytes} (hword : word.length = 8)
    (a : α) (hmake : make word = a) :
    Delimits (make <$> Reading.take 8) word a (.tooShort 8) := by
  rw [← bind_pure_comp]
  exact (delimits_take hword).followed fun rest => by rw [← hmake]; rfl

theorem delimits_unsigned {n : Nat} (h : n < Number.twoTo 64) :
    Delimits Reading.unsigned (Bytes.word n) n (.tooShort 8) := by
  refine delimits_map_word (Bytes.length_word n) n ?_
  rw [Bytes.toNat_word, Nat.mod_eq_of_lt h]

theorem delimits_signed {i : Int} (h : Bytes.fitsSigned i = true) :
    Delimits Reading.signed (Bytes.signedWord i) i (.tooShort 8) :=
  delimits_map_word (Bytes.length_signedWord i) i (Bytes.toInt_signedWord h)

theorem delimits_double (x : Binary64) :
    Delimits Reading.double (Bytes.word x.word) x (.tooShort 8) := by
  refine delimits_map_word (Bytes.length_word x.word) x ?_
  rw [Bytes.toNat_word, Nat.mod_eq_of_lt x.word_lt, Binary64.ofWord_word]

/-- Bytes behind their length are cut in the length, or fewer are left than it says. -/
theorem delimits_bytes {bytes : Bytes} (h : bytes.length ≤ maxLength) :
    Delimits Reading.bytes (sized bytes) bytes (.inText bytes.length) := by
  have hword : bytes.length < Number.twoTo 64 := by
    unfold maxLength at h
    rw [Bytes.twoTo_word]
    omega
  have hbehind : ∀ left : Bytes, (do
      let left ← get
      if maxLength < bytes.length then throw (.tooLong bytes.length)
      else if left.length < bytes.length then throw (.badLength bytes.length left.length)
      else Reading.take bytes.length : Reading Bytes).run.run left =
        if left.length < bytes.length then (.error (.badLength bytes.length left.length), left)
        else (Reading.take bytes.length).run.run left := by
    intro left
    show (if maxLength < bytes.length then _ else if left.length < bytes.length then _ else _ :
      Reading Bytes).run.run left = _
    rw [if_neg (Nat.not_lt.2 h)]
    split
    · rfl
    · rfl
  refine (delimits_unsigned hword).bind ⟨fun rest => ?_, fun kept hkept => ?_⟩
  · have hlong : ¬(bytes ++ rest).length < bytes.length := by simp
    rw [hbehind, if_neg hlong, run_take rfl]
  · have hleft : (bytes.take kept).length = kept := List.length_take_of_le (Nat.le_of_lt hkept)
    rw [hbehind, hleft, if_pos hkept]

theorem delimits_text {text : String} (h : (Bytes.ofText text).length ≤ maxLength) :
    Delimits Reading.text (sized (Bytes.ofText text)) text
      (.inText (Bytes.ofText text).length) := by
  refine (delimits_bytes h).followed fun rest => ?_
  rw [Bytes.toText?_eq_some_iff.2 rfl]
  rfl

theorem delimits_values {x : Observation} (h : x.IsReadable) :
    Delimits values x.toRecord (x.base, x.quote, x.rate, (x.seconds : Int))
      (Fault.inRecord x) := by
  have hseconds : Bytes.fitsSigned x.seconds = true := by
    have htime := x.inTime
    unfold Time.maxSecond at htime
    rw [Bytes.fitsSigned_iff, Bytes.twoTo_half]
    omega
  have hlast : Delimits (do
      let seconds ← Reading.signed
      return (x.base, x.quote, x.rate, seconds)) (Bytes.signedWord x.seconds)
      (x.base, x.quote, x.rate, (x.seconds : Int)) (.tooShort 8) :=
    (delimits_signed hseconds).followed fun rest => rfl
  have hall : Delimits values (sized (Bytes.ofText x.base) ++ (sized (Bytes.ofText x.quote) ++
      (Bytes.word x.rate.word ++ Bytes.signedWord x.seconds))) _ _ :=
    (delimits_text h.1).bind ((delimits_text h.2).bind ((delimits_double x.rate).bind hlast))
  unfold Fault.inRecord Observation.toRecord ofCodes
  rw [length_sized, length_sized, Bytes.length_word] at hall
  simp only [List.append_assoc]
  exact hall

/-! ## Records that end too early or too late -/

section

variable {x y : Observation}

theorem decode_take (h : x.IsReadable) {k : Nat} (hk : k < x.toRecord.length) :
    decode (x.toRecord.take k) = .error (Fault.inRecord x k) := by
  have hrun : values.run.run (x.toRecord.take k) =
      (.error (Fault.inRecord x k), (values.run.run (x.toRecord.take k)).2) :=
    Prod.ext ((delimits_values h).cut k hk) rfl
  exact decode_error hrun

theorem decode_append (h : x.IsReadable) {rest : Bytes} (hrest : rest ≠ []) :
    decode (x.toRecord ++ rest) = .error (.trailing rest.length) := by
  unfold decode
  rw [(delimits_values h).whole rest]
  exact if_neg (mt List.isEmpty_iff.1 hrest)

/-- No record is the start of the record of another observation. -/
theorem toRecord_prefix_iff (hx : x.IsReadable) (hy : y.IsReadable) :
    x.toRecord <+: y.toRecord ↔ x = y := by
  constructor
  · rintro ⟨rest, hrest⟩
    have hdecode := decode_toRecord hy
    by_cases hnone : rest = []
    · rw [← hrest, hnone, List.append_nil, decode_toRecord hx] at hdecode
      exact Except.ok.inj hdecode
    · rw [← hrest, decode_append hx hnone] at hdecode
      cases hdecode
  · rintro rfl
    exact List.prefix_rfl

theorem isCorruption_inTurn (length : Nat) (first second : Nat → Fault) (kept : Nat) :
    (Fault.inTurn length first second kept).isCorruption =
      if kept < length then (first kept).isCorruption else (second (kept - length)).isCorruption :=
  apply_ite Fault.isCorruption _ _ _

theorem isCorruption_inText {length kept : Nat} :
    (Fault.inText length kept).isCorruption = true ↔ 8 ≤ kept := by
  unfold Fault.inText
  rw [isCorruption_inTurn]
  by_cases h : kept < 8
  · rw [if_pos h]
    exact ⟨nofun, fun hle => absurd h (Nat.not_lt.2 hle)⟩
  · rw [if_neg h]
    exact ⟨fun _ => Nat.not_lt.1 h, fun _ => rfl⟩

/-- A cut contradicts the bytes before it if it lies behind the length of a code and before the end
of the code. -/
theorem isCorruption_inRecord {k : Nat} :
    let base := (Bytes.ofText x.base).length
    let quote := (Bytes.ofText x.quote).length
    (Fault.inRecord x k).isCorruption = true ↔
      8 ≤ k ∧ k < 8 + base ∨ 16 + base ≤ k ∧ k < 16 + base + quote := by
  dsimp only
  generalize hb : (Bytes.ofText x.base).length = base
  generalize hq : (Bytes.ofText x.quote).length = quote
  unfold Fault.inRecord
  rw [hb, hq, isCorruption_inTurn]
  by_cases hbase : k < 8 + base
  · rw [if_pos hbase, isCorruption_inText]
    omega
  rw [if_neg hbase, isCorruption_inTurn]
  by_cases hquote : k - (8 + base) < 8 + quote
  · rw [if_pos hquote, isCorruption_inText]
    omega
  rw [if_neg hquote, isCorruption_inTurn]
  simp only [Fault.isCorruption, ite_self, Bool.false_eq_true, false_iff]
  omega

/-- The bytes of a record that is cut end too early, or contradict each other. -/
theorem isEnd_inRecord {k : Nat} :
    (Fault.inRecord x k).isEnd = !(Fault.inRecord x k).isCorruption := by
  unfold Fault.inRecord Fault.inText Fault.inTurn
  repeat' split
  all_goals rfl

end

/-- A record tells where it ends. Cut anywhere it is refused: as corrupted exactly if the cut lies
behind the length of a code and before the end of the code, and for the end of the bytes at every
other place, also right behind a code. With any bytes behind it, it is refused as corrupted. -/
theorem tells_its_end (x : Observation) (h : x.IsReadable) :
    let base := (Bytes.ofText x.base).length
    let quote := (Bytes.ofText x.quote).length
    (∀ k, k < x.toRecord.length →
      let inCode := 8 ≤ k ∧ k < 8 + base ∨ 16 + base ≤ k ∧ k < 16 + base + quote
      ∃ fault, decode (x.toRecord.take k) = .error fault ∧
        (fault.isCorruption = true ↔ inCode) ∧ (fault.isEnd = true ↔ ¬inCode)) ∧
    ∀ rest, rest ≠ [] →
      ∃ fault, decode (x.toRecord ++ rest) = .error fault ∧ fault.isCorruption = true := by
  intro base quote
  refine ⟨fun k hk => ?_, fun rest hrest => ⟨_, decode_append h hrest, rfl⟩⟩
  intro inCode
  have hcorrupted : (Fault.inRecord x k).isCorruption = true ↔ inCode := isCorruption_inRecord
  refine ⟨_, decode_take h hk, hcorrupted, ?_⟩
  rw [isEnd_inRecord, Bool.not_eq_true', ← Bool.not_eq_true, hcorrupted]

/-- Behind the first code of three letters the bytes of a record just end, and one byte before it
they are corrupted. -/
theorem early_tells_its_end :
    let record := Store.early.toRecord
    Store.early.IsReadable ∧ record.length = 38 ∧
    (∃ fault, decode (record.take 10) = .error fault ∧ fault.isCorruption = true) ∧
    ∃ fault, decode (record.take 11) = .error fault ∧ fault.isEnd = true := by
  intro record
  have hreadable : Store.early.IsReadable := ⟨by decide, by decide⟩
  have hlength : record.length = 38 := by decide
  obtain ⟨hcuts, -⟩ := tells_its_end Store.early hreadable
  have hbase : (Bytes.ofText Store.early.base).length = 3 := by decide
  obtain ⟨fault, hdecode, hcorrupted, -⟩ := hcuts 10 (by rw [hlength]; decide)
  obtain ⟨other, hother, -, hend⟩ := hcuts 11 (by rw [hlength]; decide)
  refine ⟨hreadable, hlength, ⟨fault, hdecode, hcorrupted.2 (.inl ?_)⟩, other, hother, hend.2 ?_⟩
  · omega
  · omega

end Record

end RateLedger
