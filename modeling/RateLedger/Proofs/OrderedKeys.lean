import RateLedger.Proofs.KeyOrder

/-!
# Keys in order and the ranges of prefixes

A scan meets the rows of a range in the order of their keys, and it shows entries by pair and then
by second. Both rest on the keys alone. Two entries of plain pairs have different keys, in the order
of the entries, also where one identifier extends the other (`ofEntry_embeds`). And the range of a
prefix holds what starts with the prefix, because its bound is the least byte string above all of
that, and is missing only if nothing lies above (`range_of_prefix`).
-/

namespace RateLedger.Key

/-! ## Entries -/

section

variable {p q : String} {t u : Option Nat}

theorem ofEntry_inj (hp : IsPlain p) (hq : IsPlain q)
    (ht : ∀ second ∈ t, second ≤ Time.maxSecond) (hu : ∀ second ∈ u, second ≤ Time.maxSecond) :
    ofEntry p t = ofEntry q u ↔ p = q ∧ t = u := by
  cases t with
  | none =>
    cases u with
    | none => simp [ofEntry, identity_inj]
    | some other =>
      have hmoderate := Bytes.isModerate_second (hu other rfl)
      exact iff_of_false (timed_ne_identity hmoderate hp).symm (by simp)
  | some second =>
    have hmoderate := Bytes.isModerate_second (ht second rfl)
    cases u with
    | none => exact iff_of_false (timed_ne_identity hmoderate hq) (by simp)
    | some other =>
      have hfits := (Bytes.isModerate_second (hu other rfl)).fits
      have hiff := timed_inj (p := p) (q := q) hmoderate.fits hfits
      rw [Int.natCast_inj] at hiff
      rw [Option.some_inj]
      exact hiff

/-- Identifiers without the character zero, with or without a second, have their own keys each: the
keys are ordered by the bytes of the identifier, then the identity key comes before the keys of
seconds, and those follow the seconds. (In the order of optional seconds none comes first.) -/
theorem ofEntry_embeds (hp : IsPlain p) (hq : IsPlain q)
    (ht : ∀ second ∈ t, second ≤ Time.maxSecond) (hu : ∀ second ∈ u, second ≤ Time.maxSecond) :
    (ofEntry p t = ofEntry q u ↔ p = q ∧ t = u) ∧
      (ofEntry p t < ofEntry q u ↔ Bytes.ofText p < Bytes.ofText q ∨ (p = q ∧ t < u)) :=
  ⟨ofEntry_inj hp hq ht hu, ofEntry_lt_ofEntry_iff ht hp hq hu⟩

end

/-- The last key of a pair comes before the identity key of a pair whose identifier is longer by a
character as small as can be. -/
theorem ofEntry_embeds_extended :
    IsPlain "EUR2USD" ∧ IsPlain "EUR2USD\x01" ∧
      timed "EUR2USD" Time.maxSecond < identity "EUR2USD\x01" ∧
      timed "EUR2USD" Time.maxSecond ≠ identity "EUR2USD\x01" := by
  have hplain : IsPlain "EUR2USD" := by decide
  have hlonger : IsPlain "EUR2USD\x01" := by decide
  have hids : Bytes.ofText "EUR2USD" < Bytes.ofText "EUR2USD\x01" := by decide
  obtain ⟨hinj, hlt⟩ := ofEntry_embeds (t := some Time.maxSecond) (u := none) hplain hlonger
    (fun _ h => (Option.some.inj h).symm.le) nofun
  exact ⟨hplain, hlonger, hlt.2 (.inl hids), fun h => absurd (hinj.1 h).1 (by decide)⟩

/-! ## Prefixes -/

/-- A byte string lies above all that start with a prefix. -/
def IsAbove (pre bound : Bytes) : Prop := ∀ key, pre <+: key → key < bound

section

variable {pre key other : Bytes}

theorem le_and_lt_upperBound_iff :
    (pre ≤ key ∧ ∀ bound ∈ upperBound? pre, key < bound) ↔ pre <+: key := by
  rw [← inRange_upperBound_iff, Table.inRange, Bool.and_eq_true, decide_eq_true_eq,
    Option.all_eq_true]
  simp only [decide_eq_true_eq]
  rfl

/-- What lies above a prefix lies at its bound or above. -/
theorem isAbove_iff :
    IsAbove pre other ↔ ∃ bound, upperBound? pre = some bound ∧ bound ≤ other := by
  constructor
  · intro habove
    have hpre : pre ≤ other := List.le_of_lt (habove pre List.prefix_rfl)
    -- A string does not lie above itself, so this one does not start with the prefix.
    have hout : ¬pre <+: other := fun h => List.lt_irrefl other (habove other h)
    rw [← le_and_lt_upperBound_iff, not_and] at hout
    obtain ⟨bound, hbound⟩ := not_forall.1 (hout hpre)
    obtain ⟨hsome, hle⟩ := Classical.not_imp.1 hbound
    exact ⟨bound, hsome, List.not_lt.1 hle⟩
  · rintro ⟨bound, hbound, hle⟩ key hkey
    exact Std.lt_of_lt_of_le ((le_and_lt_upperBound_iff.2 hkey).2 bound hbound) hle

end

/-- From the prefix on and below its bound, if it has one, lie exactly the byte strings that start
with the prefix. The bound is the least byte string above all of them, and a prefix has none exactly
if no byte string lies above all of them. -/
theorem range_of_prefix (pre : Bytes) :
    (∀ key, (pre ≤ key ∧ ∀ bound ∈ upperBound? pre, key < bound) ↔ pre <+: key) ∧
    (∀ bound, upperBound? pre = some bound ↔
      IsAbove pre bound ∧ ∀ other, IsAbove pre other → bound ≤ other) ∧
    (upperBound? pre = none ↔ ∀ bound, ¬IsAbove pre bound) := by
  refine ⟨fun key => le_and_lt_upperBound_iff, fun bound => ⟨fun hbound => ?_, ?_⟩, ?_⟩
  · refine ⟨isAbove_iff.2 ⟨bound, hbound, List.le_refl bound⟩, fun other hother => ?_⟩
    obtain ⟨least, hleast, hle⟩ := isAbove_iff.1 hother
    obtain rfl := Option.some.inj (hbound.symm.trans hleast)
    exact hle
  · rintro ⟨habove, hleast⟩
    obtain ⟨found, hfound, hle⟩ := isAbove_iff.1 habove
    have hge := hleast found (isAbove_iff.2 ⟨found, hfound, List.le_refl found⟩)
    rw [hfound, List.le_antisymm hle hge]
  · rw [Option.eq_none_iff_forall_ne_some]
    constructor
    · intro hnone bound habove
      obtain ⟨found, hfound, -⟩ := isAbove_iff.1 habove
      exact hnone found hfound
    · intro hnot bound hbound
      exact hnot bound (isAbove_iff.2 ⟨bound, hbound, List.le_refl bound⟩)

/-- Full bytes at the end are passed over, and a prefix of full bytes only has no bound. -/
example : upperBound? [101, 58, 255, 255] = some [101, 59] ∧ upperBound? [255, 255] = none := by
  decide

end RateLedger.Key
