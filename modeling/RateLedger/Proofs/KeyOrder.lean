import Mathlib.Data.List.Induction
import Mathlib.Tactic.Linarith
import Mathlib.Tactic.Ring
import RateLedger.Key
import RateLedger.Proofs.PlainTexts
import RateLedger.Table

/-!
# The order of the keys

Keys are compared byte by byte. An eight-byte word in front of which there is a zero sorts below
every continuation of a plain text, so the keys of plain identifiers are ordered by the identifier
first and then by the second, also where one identifier extends another. A moderate number is told
apart from a text by its first byte, so no key of a second is the identity key of a plain pair.
-/

namespace RateLedger

namespace Bytes

open Number (twoTo)

/-- The order of strings without zeros decides before what follows them, if it is empty or starts
with a zero. -/
theorem append_lt_append_iff {a b v w : Bytes} (ha : 0 ∉ a) (hb : 0 ∉ b)
    (hv : ∀ byte ∈ v.head?, byte = 0) (hw : ∀ byte ∈ w.head?, byte = 0) :
    a ++ v < b ++ w ↔ a < b ∨ (a = b ∧ v < w) := by
  have hpos : ∀ {byte : UInt8} {bytes : Bytes}, 0 ∉ byte :: bytes → 0 < byte := by
    intro byte bytes hzero
    have hne : byte ≠ 0 := fun h => hzero (h ▸ List.mem_cons_self)
    grind
  induction a generalizing b with
  | nil =>
    cases b with
    | nil => simp
    | cons y ys =>
      have hy := hpos hb
      cases v with
      | nil => simp
      | cons x v =>
        obtain rfl : x = 0 := hv x rfl
        simp [List.cons_lt_cons_iff, hy]
  | cons x xs ih =>
    cases b with
    | nil =>
      have hx := hpos ha
      cases w with
      | nil => simp
      | cons y w =>
        obtain rfl : y = 0 := hw y rfl
        simp only [List.nil_append, List.cons_append, List.cons_lt_cons_iff, List.not_lt_nil,
          reduceCtorEq, false_and, or_false]
        grind
    | cons y ys =>
      rw [List.mem_cons, not_or] at ha hb
      simp only [List.cons_append, List.cons_lt_cons_iff, ih ha.2 hb.2, List.cons.injEq]
      grind

theorem toNat_append_singleton (bytes : Bytes) (byte : UInt8) :
    toNat (bytes ++ [byte]) = toNat bytes * 256 + byte.toNat := by
  simp [toNat]

theorem toNat_cons (byte : UInt8) (bytes : Bytes) :
    toNat (byte :: bytes) = byte.toNat * 256 ^ bytes.length + toNat bytes := by
  induction bytes using List.reverseRecOn with
  | nil => simp [toNat]
  | append_singleton front last ih =>
    rw [← List.cons_append, toNat_append_singleton, ih, toNat_append_singleton,
      List.length_append, List.length_singleton, Nat.pow_succ]
    ring

theorem toNat_lt (bytes : Bytes) : toNat bytes < 256 ^ bytes.length := by
  induction bytes with
  | nil => simp [toNat]
  | cons byte bytes ih =>
    have hbyte := byte.toNat_lt
    rw [toNat_cons, List.length_cons, Nat.pow_succ]
    nlinarith

/-- Strings of one length are ordered as the numbers they write. -/
theorem lt_iff_toNat_lt {a b : Bytes} (h : a.length = b.length) :
    a < b ↔ toNat a < toNat b := by
  induction a generalizing b with
  | nil =>
    obtain rfl := List.eq_nil_of_length_eq_zero h.symm
    simp
  | cons x xs ih =>
    cases b with
    | nil => simp at h
    | cons y ys =>
      have hlen : xs.length = ys.length := by simpa using h
      have hx := toNat_lt xs
      have hy := toNat_lt ys
      rw [List.cons_lt_cons_iff, ih hlen, toNat_cons, toNat_cons, hlen, UInt8.lt_iff_toNat_lt,
        ← UInt8.toNat_inj]
      rw [hlen] at hx
      rcases Nat.lt_trichotomy x.toNat y.toNat with hlt | heq | hgt
      · refine iff_of_true (.inl hlt) ?_
        nlinarith
      · simp [heq]
      · refine iff_of_false (fun h => by omega) ?_
        nlinarith

/-- A number is moderate if the first of its eight bytes only repeats its sign. -/
def IsModerate (number : Int) : Prop := -(twoTo 56 : Int) ≤ number ∧ number < twoTo 56

theorem IsModerate.fits {number : Int} (h : IsModerate number) : fitsSigned number = true := by
  have h56 : twoTo 56 = 72057594037927936 := rfl
  unfold IsModerate at h
  rw [fitsSigned_iff, twoTo_half]
  omega

/-- The first byte of a moderate number. -/
theorem head_signedWord {number : Int} (h : IsModerate number) :
    ∃ rest, signedWord number = (if 0 ≤ number then 0 else 255) :: rest := by
  have h56 : twoTo 56 = 72057594037927936 := rfl
  unfold IsModerate at h
  have hhead : (number % twoTo 64).toNat >>> 56 = if 0 ≤ number then 0 else 255 := by
    rw [Nat.shiftRight_eq_div_pow, twoTo_word]
    split <;> omega
  refine ⟨_, congrArg (· :: _) ?_⟩
  show UInt8.ofNat ((number % twoTo 64).toNat >>> 56) = _
  rw [hhead]
  split <;> rfl

theorem isModerate_second {seconds : Nat} (h : seconds ≤ Time.maxSecond) :
    IsModerate seconds := by
  have h56 : twoTo 56 = 72057594037927936 := rfl
  unfold Time.maxSecond at h
  unfold IsModerate
  omega

theorem signedWord_inj {i j : Int} (hi : fitsSigned i = true) (hj : fitsSigned j = true) :
    signedWord i = signedWord j ↔ i = j := by
  constructor
  · intro h
    rw [← toInt_signedWord hi, h, toInt_signedWord hj]
  · rintro rfl
    rfl

/-- The words of numbers that are not negative are ordered as the numbers. -/
theorem signedWord_lt_signedWord_iff {m n : Nat} (hm : m < twoTo 63) (hn : n < twoTo 63) :
    signedWord m < signedWord n ↔ m < n := by
  rw [twoTo_half] at hm hn
  rw [lt_iff_toNat_lt (by simp), signedWord, signedWord, toNat_word, toNat_word, twoTo_word]
  omega

end Bytes

namespace Key

theorem identity_inj {p q : String} : identity p = identity q ↔ p = q := by
  constructor
  · intro h
    exact Bytes.ofText_injective (List.append_cancel_left h)
  · rintro rfl
    rfl

theorem timed_inj {p q : String} {t u : Int} (ht : fits t = true) (hu : fits u = true) :
    timed p t = timed q u ↔ p = q ∧ t = u := by
  constructor
  · intro h
    obtain ⟨hpair, hword⟩ := List.append_inj' h rfl
    exact ⟨identity_inj.1 hpair, (Bytes.signedWord_inj ht hu).1 hword⟩
  · rintro ⟨rfl, rfl⟩
    rfl

/-- The key of a moderate second is not the identity key of a plain pair. -/
theorem timed_ne_identity {p q : String} {t : Int} (ht : Bytes.IsModerate t) (hq : IsPlain q) :
    timed p t ≠ identity q := by
  obtain ⟨rest, hword⟩ := Bytes.head_signedWord ht
  intro h
  have htext : Bytes.ofText p ++ Bytes.signedWord t = Bytes.ofText q := by
    refine List.append_cancel_left (?_ : root ++ separator ++ _ = root ++ separator ++ _)
    rw [← List.append_assoc]
    exact h
  have hmem : (if 0 ≤ t then 0 else 255) ∈ Bytes.ofText q := by
    rw [← htext, hword]
    simp
  split at hmem
  · exact Bytes.zero_not_mem_ofText hq hmem
  · exact Bytes.full_not_mem_ofText q hmem

/-- What the keys of a pair have behind its identifier: the word of a second, or nothing. -/
def wordOf (second? : Option Nat) : Bytes := second?.elim [] fun second => Bytes.signedWord second

/-- The key of a pair at a second, or the identity key where no second is given. -/
def ofEntry (pairId : String) : Option Nat → Bytes
  | none => identity pairId
  | some second => timed pairId second

theorem ofEntry_eq (pairId : String) (second? : Option Nat) :
    ofEntry pairId second? = identity pairId ++ wordOf second? := by
  cases second? with
  | none => exact (List.append_nil _).symm
  | some second => rfl

section

variable {t u : Option Nat} (ht : ∀ second ∈ t, second ≤ Time.maxSecond)

include ht

theorem head?_wordOf : ∀ byte ∈ (wordOf t).head?, byte = 0 := by
  cases t with
  | none => nofun
  | some second =>
    obtain ⟨rest, hword⟩ := Bytes.head_signedWord (Bytes.isModerate_second (ht second rfl))
    rw [if_pos (Int.natCast_nonneg _)] at hword
    intro byte hbyte
    rw [wordOf, Option.elim_some, hword] at hbyte
    exact (Option.some.inj hbyte).symm

theorem wordOf_lt_wordOf_iff (hu : ∀ second ∈ u, second ≤ Time.maxSecond) :
    wordOf t < wordOf u ↔ t < u := by
  have hmax : Time.maxSecond < Number.twoTo 63 := by decide
  cases t with
  | none =>
    cases u with
    | none => simp [wordOf]
    | some second => exact iff_of_true (List.nil_lt_cons _ _) Option.none_lt_some
  | some second =>
    cases u with
    | none => exact iff_of_false (List.not_lt_nil _) Option.not_lt_none
    | some other =>
      have hsecond := ht second rfl
      have hother := hu other rfl
      rw [Option.some_lt_some]
      exact Bytes.signedWord_lt_signedWord_iff (by omega) (by omega)

/-- The keys of plain pairs are ordered by the pair and then by the second, none coming first. -/
theorem ofEntry_lt_ofEntry_iff {p q : String} (hp : IsPlain p) (hq : IsPlain q)
    (hu : ∀ second ∈ u, second ≤ Time.maxSecond) :
    ofEntry p t < ofEntry q u ↔ Bytes.ofText p < Bytes.ofText q ∨ (p = q ∧ t < u) := by
  have hids : Bytes.ofText p = Bytes.ofText q ↔ p = q :=
    ⟨Bytes.ofText_injective, fun h => h ▸ rfl⟩
  calc ofEntry p t < ofEntry q u
      ↔ Bytes.ofText p ++ wordOf t < Bytes.ofText q ++ wordOf u := by
        simp [ofEntry_eq, identity, under, root, separator]
    _ ↔ Bytes.ofText p < Bytes.ofText q ∨ (p = q ∧ t < u) := by
        rw [Bytes.append_lt_append_iff (Bytes.zero_not_mem_ofText hp)
          (Bytes.zero_not_mem_ofText hq) (head?_wordOf ht) (head?_wordOf hu),
          wordOf_lt_wordOf_iff ht hu, hids]

end

/-- The keys of plain pairs are ordered by the pair and then by the second. -/
theorem timed_lt_timed_iff {p q : String} {t u : Nat} (hp : IsPlain p) (hq : IsPlain q)
    (ht : t ≤ Time.maxSecond) (hu : u ≤ Time.maxSecond) :
    timed p t < timed q u ↔ Bytes.ofText p < Bytes.ofText q ∨ (p = q ∧ t < u) := by
  have hentries := ofEntry_lt_ofEntry_iff (t := some t) (u := some u)
    (fun _ h => Option.some.inj h ▸ ht) hp hq fun _ h => Option.some.inj h ▸ hu
  rw [Option.some_lt_some] at hentries
  exact hentries

theorem upperBound?_cons (byte : UInt8) (rest : Bytes) :
    upperBound? (byte :: rest) =
      match upperBound? rest with
      | some bound => some (byte :: bound)
      | none => if byte = 255 then none else some [byte + 1] := by
  unfold upperBound?
  rw [List.reverse_cons, List.dropWhile_append]
  cases rest.reverse.dropWhile (· == 255) with
  | nil =>
    by_cases hfull : byte = 255
    · simp [hfull]
    · simp [hfull]
  | cons last before => simp

/-- Only the full byte has no next one. -/
theorem lt_next_iff {byte other : UInt8} (h : byte ≠ 255) : other < byte + 1 ↔ other ≤ byte := by
  have hbound := byte.toNat_lt
  have hnat : byte.toNat ≠ 255 := fun heq => h (UInt8.toNat_inj.1 heq)
  rw [UInt8.lt_iff_toNat_lt, UInt8.le_iff_toNat_le, UInt8.toNat_add,
    show (1 : UInt8).toNat = 1 from rfl]
  omega

/-- The range of a prefix holds exactly the keys that start with it. -/
theorem inRange_upperBound_iff {pre key : Bytes} :
    Table.inRange pre (upperBound? pre) key = true ↔ pre <+: key := by
  unfold Table.inRange
  rw [Bool.and_eq_true, decide_eq_true_eq, Option.all_eq_true]
  induction pre generalizing key with
  | nil => simp [upperBound?]
  | cons byte rest ih =>
    cases key with
    | nil => simp
    | cons first key =>
      rw [List.cons_prefix_cons, ← ih, upperBound?_cons, List.cons_le_cons_iff]
      cases upperBound? rest with
      | some bound =>
        simp only [Option.some.injEq, decide_eq_true_eq, forall_eq', List.cons_lt_cons_iff]
        grind
      | none =>
        by_cases hfull : byte = 255
        · have hmax : ¬(255 : UInt8) < first := by
            have hbound := first.toNat_lt
            rw [UInt8.lt_iff_toNat_lt, show (255 : UInt8).toNat = 255 from rfl]
            omega
          simp [hfull, hmax]
        · have hnext : ∀ other, other < byte + 1 ↔ other ≤ byte := fun _ => lt_next_iff hfull
          simp only [if_neg hfull, Option.some.injEq, decide_eq_true_eq, forall_eq',
            List.cons_lt_cons_iff, hnext, List.not_lt_nil, and_false, or_false]
          grind

theorem inRange_upperBound (pre suffix : Bytes) :
    Table.inRange pre (upperBound? pre) (pre ++ suffix) = true :=
  inRange_upperBound_iff.2 (List.prefix_append pre suffix)

theorem root_prefix_identity (pairId : String) : root <+: identity pairId := by
  unfold identity under
  rw [List.append_assoc]
  exact List.prefix_append _ _

theorem identity_prefix_timed (pairId : String) (seconds : Int) :
    identity pairId <+: timed pairId seconds :=
  List.prefix_append _ _

theorem root_prefix_timed (pairId : String) (seconds : Int) : root <+: timed pairId seconds :=
  (root_prefix_identity pairId).trans (identity_prefix_timed pairId seconds)

end Key

end RateLedger
