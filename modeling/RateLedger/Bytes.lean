import RateLedger.Number.Power

/-!
# Byte strings

Keys and stored values are lists of bytes. `<` on them is the order of a byte-wise comparison, a
proper prefix coming first. Numbers are written in eight bytes, the highest first, and texts in
UTF-8. Main statements: reading a text back from its UTF-8 form is exact in both directions
(`toText?_eq_some_iff`), and an eight-byte word is read back modulo `2 ^ 64` (`toNat_word`).
-/

namespace RateLedger

/-- A byte string. -/
abbrev Bytes := List UInt8

namespace Bytes

open Number (twoTo)

/-- The UTF-8 form of a text. -/
def ofText (text : String) : Bytes := text.toByteArray.data.toList

/-- The text with this UTF-8 form, if there is one. -/
def toText? (bytes : Bytes) : Option String := String.fromUTF8? ⟨bytes.toArray⟩

theorem ofText_injective {s t : String} (h : ofText s = ofText t) : s = t := by
  apply String.toByteArray_inj.1
  cases hs : s.toByteArray with
  | mk a =>
    cases ht : t.toByteArray with
    | mk b =>
      simp only [ofText, hs, ht] at h
      rw [Array.toList_inj.1 h]

theorem toText?_eq_some_iff {bytes : Bytes} {text : String} :
    toText? bytes = some text ↔ ofText text = bytes := by
  unfold toText? String.fromUTF8?
  constructor
  · intro h
    split at h
    · cases h
      simp [ofText, String.fromUTF8]
    · cases h
  · rintro rfl
    have hv : (⟨(ofText text).toArray⟩ : ByteArray) = text.toByteArray := by
      simp [ofText]
    rw [hv, dif_pos text.isValidUTF8]
    rfl

@[simp] theorem ofText_append (s t : String) : ofText (s ++ t) = ofText s ++ ofText t := by
  simp [ofText, String.toByteArray_append]

/-- The eight bytes of a number modulo `2 ^ 64`, the highest first. -/
def word (n : Nat) : Bytes :=
  [56, 48, 40, 32, 24, 16, 8, 0].map fun shift => UInt8.ofNat (n >>> shift)

/-- The number with these base-256 digits, the highest first. -/
def toNat (bytes : Bytes) : Nat := bytes.foldl (fun n byte => n * 256 + byte.toNat) 0

/-- The eight bytes of an integer in two's complement, the highest first. -/
def signedWord (i : Int) : Bytes := word (i % twoTo 64).toNat

/-- The integer whose two's complement has these base-256 digits, for a string of eight bytes. -/
def toInt (bytes : Bytes) : Int :=
  if toNat bytes < twoTo 63 then toNat bytes else (toNat bytes : Int) - twoTo 64

/-- Whether an integer fits into a word without a sign. -/
def fitsUnsigned (i : Int) : Bool := 0 ≤ i && i < twoTo 64

/-- Whether an integer fits into a word with a sign. -/
def fitsSigned (i : Int) : Bool := -(twoTo 63 : Int) ≤ i && i < twoTo 63

theorem fitsUnsigned_iff {i : Int} : fitsUnsigned i = true ↔ 0 ≤ i ∧ i < twoTo 64 := by
  simp only [fitsUnsigned, Bool.and_eq_true, decide_eq_true_eq]

theorem fitsSigned_iff {i : Int} :
    fitsSigned i = true ↔ -(twoTo 63 : Int) ≤ i ∧ i < twoTo 63 := by
  simp only [fitsSigned, Bool.and_eq_true, decide_eq_true_eq]

@[simp] theorem length_word (n : Nat) : (word n).length = 8 := rfl

@[simp] theorem length_signedWord (i : Int) : (signedWord i).length = 8 := rfl

theorem twoTo_word : twoTo 64 = 18446744073709551616 := rfl

theorem twoTo_half : twoTo 63 = 9223372036854775808 := rfl

theorem toNat_word (n : Nat) : toNat (word n) = n % twoTo 64 := by
  simp only [toNat, word, List.map, List.foldl, UInt8.toNat_ofNat', Nat.shiftRight_eq_div_pow,
    twoTo_word]
  omega

theorem toInt_signedWord {i : Int} (h : fitsSigned i = true) : toInt (signedWord i) = i := by
  obtain ⟨lo, hi⟩ := fitsSigned_iff.1 h
  simp only [twoTo_half] at lo hi
  simp only [toInt, signedWord, toNat_word, twoTo_word, twoTo_half]
  omega

end Bytes

end RateLedger
