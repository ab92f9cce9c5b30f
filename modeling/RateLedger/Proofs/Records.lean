import RateLedger.Record.Codec

/-!
# Reading a record back

Every field is read back from the front of whatever follows it. So a record is read back as the
observation it was written from, as long as its codes are not longer than what is read of a text.
-/

namespace RateLedger

open Record

/-- The codes of an observation are short enough to be read back. -/
def Observation.IsReadable (x : Observation) : Prop :=
  (Bytes.ofText x.base).length ≤ maxLength ∧ (Bytes.ofText x.quote).length ≤ maxLength

namespace Record

theorem run_bind (step : Reading α) (next : α → Reading β) (left : Bytes) :
    (step >>= next).run.run left =
      match step.run.run left with
      | (.ok a, rest) => (next a).run.run rest
      | (.error fault, rest) => (.error fault, rest) := by
  show (match step.run.run left with | (r, rest) => (ExceptT.bindCont next r).run rest) = _
  rcases step.run.run left with ⟨_ | _, _⟩ <;> rfl

theorem run_bind_ok {step : Reading α} {left rest : Bytes} {a : α}
    (h : step.run.run left = (.ok a, rest)) (next : α → Reading β) :
    (step >>= next).run.run left = (next a).run.run rest := by
  rw [run_bind, h]

theorem run_map (f : α → β) (step : Reading α) (left : Bytes) :
    (f <$> step).run.run left = ((step.run.run left).1.map f, (step.run.run left).2) := by
  rw [← bind_pure_comp, run_bind]
  rcases step.run.run left with ⟨_ | _, _⟩ <;> rfl

theorem run_take {front : Bytes} {count : Nat} (h : front.length = count) (rest : Bytes) :
    (Reading.take count).run.run (front ++ rest) = (.ok front, rest) := by
  subst h
  have hlen : ¬(front ++ rest).length < front.length := by simp
  show (if (front ++ rest).length < front.length then _ else _ : Reading Bytes).run.run _ = _
  rw [if_neg hlen]
  show (Except.ok ((front ++ rest).take front.length), (front ++ rest).drop front.length) = _
  rw [List.take_left, List.drop_left]

theorem run_unsigned {n : Nat} (h : n < Number.twoTo 64) (rest : Bytes) :
    Reading.unsigned.run.run (Bytes.word n ++ rest) = (.ok n, rest) := by
  unfold Reading.unsigned
  rw [run_map, run_take (Bytes.length_word n)]
  simp [Except.map, Bytes.toNat_word, Nat.mod_eq_of_lt h]

theorem run_signed {i : Int} (h : Bytes.fitsSigned i = true) (rest : Bytes) :
    Reading.signed.run.run (Bytes.signedWord i ++ rest) = (.ok i, rest) := by
  unfold Reading.signed
  rw [run_map, run_take (Bytes.length_signedWord i)]
  simp [Except.map, Bytes.toInt_signedWord h]

theorem run_double (x : Binary64) (rest : Bytes) :
    Reading.double.run.run (Bytes.word x.word ++ rest) = (.ok x, rest) := by
  unfold Reading.double
  rw [run_map, run_take (Bytes.length_word x.word)]
  simp [Except.map, Bytes.toNat_word, Nat.mod_eq_of_lt x.word_lt]

theorem run_bytes {bytes : Bytes} (h : bytes.length ≤ maxLength) (rest : Bytes) :
    Reading.bytes.run.run (sized bytes ++ rest) = (.ok bytes, rest) := by
  have hword : bytes.length < Number.twoTo 64 := by
    rw [Bytes.twoTo_word]
    unfold maxLength at h
    omega
  unfold Reading.bytes sized
  rw [List.append_assoc, run_bind_ok (run_unsigned hword _)]
  show (if maxLength < bytes.length then _
    else if (bytes ++ rest).length < bytes.length then _ else _ : Reading Bytes).run.run _ = _
  rw [if_neg (Nat.not_lt.2 h), if_neg (by simp), run_take rfl]

theorem run_text {text : String} (h : (Bytes.ofText text).length ≤ maxLength) (rest : Bytes) :
    Reading.text.run.run (sized (Bytes.ofText text) ++ rest) = (.ok text, rest) := by
  have hread : Bytes.toText? (Bytes.ofText text) = some text := Bytes.toText?_eq_some_iff.2 rfl
  unfold Reading.text
  rw [run_bind_ok (run_bytes h rest)]
  simp only [hread]
  rfl

theorem run_values {x : Observation} (h : x.IsReadable) :
    values.run.run x.toRecord = (.ok (x.base, x.quote, x.rate, (x.seconds : Int)), []) := by
  have hseconds : Bytes.fitsSigned x.seconds = true := by
    have := x.inTime
    rw [Bytes.fitsSigned_iff, Bytes.twoTo_half]
    unfold Time.maxSecond at this
    omega
  have hlast := run_signed hseconds []
  rw [List.append_nil] at hlast
  unfold values Observation.toRecord ofCodes
  simp only [List.append_assoc]
  rw [run_bind_ok (run_text h.1 _), run_bind_ok (run_text h.2 _), run_bind_ok (run_double _ _),
    run_bind_ok hlast]
  rfl

theorem observation_eq_ok_iff {base quote : String} {rate : Binary64} {seconds : Int}
    {x : Observation} :
    observation base quote rate seconds = .ok x ↔
      x.base = base ∧ x.quote = quote ∧ x.rate = rate ∧ (x.seconds : Int) = seconds := by
  unfold observation
  constructor
  · intro h
    split at h
    · split at h
      · rename_i hmake
        exact Observation.make_eq_ok_iff.1 (Except.ok.inj h ▸ hmake)
      · cases h
    · cases h
  · rintro ⟨rfl, rfl, rfl, rfl⟩
    have htime := x.inTime
    have hzero : Time.minWall / Time.microsPerSecond ≤ 0 := by decide
    have hmake : Observation.make x.base x.quote x.rate x.seconds (by omega) = .ok x :=
      Observation.make_eq_ok_iff.2 ⟨rfl, rfl, rfl, rfl⟩
    rw [dif_pos ⟨by omega, by omega⟩, hmake]

/-- A record is read back as the observation it was written from. -/
theorem decode_toRecord {x : Observation} (h : x.IsReadable) : decode x.toRecord = .ok x := by
  unfold decode
  rw [run_values h]
  exact observation_eq_ok_iff.2 ⟨rfl, rfl, rfl, rfl⟩

end Record

end RateLedger
