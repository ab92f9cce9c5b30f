import RateLedger.Bytes

/-!
# The bytes of a text

The UTF-8 form of a text never contains the byte 255, and it contains the byte zero only where the
text contains the character zero. So the byte that a number of moderate size has in front, which is
one of the two, tells it apart from every plain text.
-/

namespace RateLedger

/-- A text is plain if the character zero does not occur in it. -/
def IsPlain (text : String) : Prop := Char.ofNat 0 ∉ text.toList

instance (text : String) : Decidable (IsPlain text) :=
  inferInstanceAs (Decidable (Char.ofNat 0 ∉ text.toList))

theorem IsPlain.append {s t : String} (hs : IsPlain s) (ht : IsPlain t) : IsPlain (s ++ t) := by
  unfold IsPlain at *
  rw [String.toList_append, List.mem_append]
  exact fun h => h.elim hs ht

namespace Bytes

theorem ofText_eq_flatMap (text : String) :
    ofText text = text.toList.flatMap String.utf8EncodeChar := by
  unfold ofText
  rw [← String.utf8Encode_toList, List.utf8Encode]
  simp

/-- A byte of a character is below 248, and only the character zero has a byte zero. -/
theorem byte_of_char {c : Char} {byte : UInt8} (h : byte ∈ String.utf8EncodeChar c) :
    byte.toNat < 248 ∧ (byte.toNat = 0 → c.toNat = 0) := by
  have hval : c.toNat = c.val.toNat := rfl
  rw [hval]
  unfold String.utf8EncodeChar at h
  generalize c.val.toNat = v at h ⊢
  dsimp only at h
  -- one case for each length of a character's UTF-8 form
  split at h
  · simp only [List.mem_cons, List.not_mem_nil, or_false] at h
    subst h
    rw [UInt8.toNat_ofNat']
    omega
  · split at h
    · simp only [List.mem_cons, List.not_mem_nil, or_false] at h
      rcases h with rfl | rfl <;> rw [UInt8.toNat_ofNat'] <;> omega
    · split at h
      · simp only [List.mem_cons, List.not_mem_nil, or_false] at h
        rcases h with rfl | rfl | rfl <;> rw [UInt8.toNat_ofNat'] <;> omega
      · simp only [List.mem_cons, List.not_mem_nil, or_false] at h
        rcases h with rfl | rfl | rfl | rfl <;> rw [UInt8.toNat_ofNat'] <;> omega

theorem zero_not_mem_ofText {text : String} (h : IsPlain text) : (0 : UInt8) ∉ ofText text := by
  rw [ofText_eq_flatMap, List.mem_flatMap]
  rintro ⟨c, hc, hbyte⟩
  have hzero : c.toNat = (Char.ofNat 0).toNat := (byte_of_char hbyte).2 rfl
  exact h (Char.toNat_inj.1 hzero ▸ hc)

theorem full_not_mem_ofText (text : String) : (255 : UInt8) ∉ ofText text := by
  rw [ofText_eq_flatMap, List.mem_flatMap]
  rintro ⟨c, -, hbyte⟩
  exact absurd (byte_of_char hbyte).1 (by decide)

end Bytes

end RateLedger
