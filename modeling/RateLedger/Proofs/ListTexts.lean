import Mathlib.Tactic.SplitIfs
import RateLedger.Proofs.Answers

/-!
# Lists of texts in double quotes

A list is written by hand with its texts in double quotes as they are. Read as JSON it gives these
texts exactly when none of their characters has to be escaped (`read?_listed_iff`).

One direction reads the list text by text. For the other, a reader that meets an escape consumes
more characters than it gives out (`readsTo_of_text?`), and a list takes as many characters as its
texts need, at least (`length_le_of_items?`); so a list that is as short as it can be holds no
escape, and each quote in it ends a text.
-/

namespace RateLedger.Json

/-- Whether a character stands for itself between double quotes. -/
def isUnescaped (c : Char) : Bool := c != '"' && c != '\\' && 32 ≤ c.toNat

theorem isUnescaped_iff {c : Char} :
    isUnescaped c = true ↔ c ≠ '"' ∧ c ≠ '\\' ∧ 32 ≤ c.toNat := by
  simp [isUnescaped, and_assoc]

/-- Whether all characters of a text stand for themselves between double quotes. -/
def IsUnescaped (text : String) : Prop := ∀ c ∈ text.toList, isUnescaped c = true

instance (text : String) : Decidable (IsUnescaped text) :=
  decidable_of_iff (text.toList.all isUnescaped = true) List.all_eq_true

/-- The texts of a list in double quotes, up to the end of the list and what follows. -/
def listed (rest : List Char) : List String → List Char
  | [] => ']' :: rest
  | [text] => '"' :: (text.toList ++ '"' :: ']' :: rest)
  | text :: others => '"' :: (text.toList ++ '"' :: ',' :: listed rest others)

/-- The characters that a list of texts takes up to its end, without escapes. -/
def listLength : List String → Nat
  | [] => 0
  | text :: others => text.toList.length + 3 + listLength others

theorem length_listed {texts : List String} (hne : texts ≠ []) (rest : List Char) :
    (listed rest texts).length = listLength texts + rest.length := by
  induction texts with
  | nil => exact absurd rfl hne
  | cons text others ih =>
    cases others with
    | nil =>
      simp [listed, listLength]
      omega
    | cons other others =>
      have hothers := ih (List.cons_ne_nil other others)
      simp only [listLength] at hothers ⊢
      simp only [listed, List.length_cons, List.length_append, hothers]
      omega

/-- The values of texts. -/
def ofTexts (texts : List String) : List Json := texts.map fun text : String => .str text

theorem ofTexts_cons (text : String) (others : List String) :
    ofTexts (text :: others) = .str text :: ofTexts others := rfl

namespace Reader

theorem text?_unescaped {chars : List Char} (h : ∀ c ∈ chars, isUnescaped c = true)
    (begun : Begun) (rest : List Char) :
    text? begun (chars ++ '"' :: rest) = some ((chars.foldl Begun.add begun).text, rest) := by
  induction chars generalizing begun with
  | nil => simp [text?]
  | cons c chars ih =>
    obtain ⟨hquote, hslash, hcode⟩ := isUnescaped_iff.1 (h c List.mem_cons_self)
    rw [List.cons_append, text?_plain hquote hslash hcode,
      ih fun d hd => h d (List.mem_cons_of_mem c hd)]
    rfl

/-- What was read is a text without halves only if no half was read. -/
theorem Begun.eq_of_text {begun : Begun} {text : String} (h : begun.text = text) :
    begun.halves = [] ∧ text.toList = begun.chars.reverse := by
  obtain ⟨halves, chars⟩ := begun
  obtain rfl | ⟨others, half, rfl⟩ := List.eq_nil_or_concat halves
  · obtain rfl := Text.Wide.plain.inj h
    simp
  · unfold Begun.text at h
    rw [List.concat_eq_append, List.foldl_append] at h
    cases h

/-- A code stands for one more character, or it is that of a half. -/
theorem Begun.addCode_cases (begun : Begun) (code : Nat) :
    (∃ c, begun.addCode code = begun.add c) ∨ (begun.addCode code).halves ≠ [] := by
  unfold Begun.addCode
  split
  · exact .inr (List.cons_ne_nil _ _)
  · exact .inl ⟨_, rfl⟩

/-- A text without halves that was read up to the first quote behind its characters so far, none of
them being escaped, or else one that is shorter than what was read. -/
structure ReadsTo (begun : Begun) (chars : List Char) (text : String) (rest : List Char) :
    Prop where
  unbroken : begun.halves = []
  found : (∃ plain, (∀ c ∈ plain, isUnescaped c = true) ∧ chars = plain ++ '"' :: rest ∧
      text.toList = begun.chars.reverse ++ plain) ∨
    text.toList.length + rest.length + 1 < begun.chars.length + chars.length

section

variable {begun : Begun} {chars later rest : List Char} {text : String} {c : Char}

theorem ReadsTo.plain (hc : isUnescaped c = true) (h : ReadsTo (begun.add c) later text rest) :
    ReadsTo begun (c :: later) text rest := by
  refine ⟨h.unbroken, ?_⟩
  rcases h.found with ⟨plain, hplain, rfl, htext⟩ | hless
  · refine .inl ⟨c :: plain, fun d hd => ?_, rfl, by simp [htext, Begun.add]⟩
    exact (List.mem_cons.1 hd).elim (fun heq => heq ▸ hc) (hplain d)
  · rw [Begun.add, List.length_cons] at hless
    exact .inr (by rw [List.length_cons]; omega)

/-- An escape takes two characters at least, and stands for one. -/
theorem ReadsTo.escaped (h : ReadsTo (begun.add c) later text rest)
    (hlength : later.length + 2 ≤ chars.length) : ReadsTo begun chars text rest := by
  refine ⟨h.unbroken, .inr ?_⟩
  rcases h.found with ⟨plain, -, rfl, htext⟩ | hless
  · rw [htext]
    simp only [Begun.add, List.length_append, List.length_reverse, List.length_cons] at hlength ⊢
    omega
  · rw [Begun.add, List.length_cons] at hless
    omega

theorem ReadsTo.escapedCode {code : Nat} (h : ReadsTo (begun.addCode code) later text rest)
    (hlength : later.length + 2 ≤ chars.length) : ReadsTo begun chars text rest := by
  obtain ⟨c, hadd⟩ | hhalf := begun.addCode_cases code
  · rw [hadd] at h
    exact h.escaped hlength
  · exact absurd h.unbroken hhalf

theorem readsTo_of_text? (h : text? begun chars = some (.plain text, rest)) :
    ReadsTo begun chars text rest := by
  fun_induction text? begun chars with
  | case1 begun after =>
    obtain ⟨htext, rfl⟩ := Prod.mk.inj (Option.some.inj h)
    obtain ⟨hunbroken, hchars⟩ := Begun.eq_of_text htext
    exact ⟨hunbroken, .inl ⟨[], by simp, rfl, by simp [hchars]⟩⟩
  | case2 _ _ _ _ _ _ _ _ _ _ _ _ _ _ _ ih => exact (ih h).escapedCode (by simp)
  | case3 _ _ _ _ _ _ _ _ _ _ _ _ _ _ _ ih => exact (ih h).escapedCode (by simp)
  | case4 _ _ _ _ _ _ _ _ _ _ _ _ _ ih => exact (ih h).escapedCode (by simp)
  | case6 _ _ _ _ _ _ _ _ _ ih => exact (ih h).escapedCode (by simp)
  | case8 _ _ _ _ _ _ _ ih => exact (ih h).escaped (by simp)
  | case11 begun c after hquote _ _ _ hplain ih =>
    obtain ⟨hcode, hslash⟩ := not_or.1 hplain
    exact (ih h).plain (isUnescaped_iff.2 ⟨hquote, hslash, Nat.le_of_not_lt hcode⟩)
  | case5 | case7 | case9 | case10 | case12 => cases h

end

/-! ## The items of a list

The items are read one after the other; what was read of one of them is its value and what follows
(`bind_eq_ok`).
-/

section

variable {nesting fuel : Nat} {before : List Json} {chars rest : List Char} {value : Json}

theorem orMalformed_eq_ok {α : Type} {found : Option α} {a : α} :
    orMalformed found = .ok a ↔ found = some a := by
  cases found with
  | none => exact ⟨nofun, nofun⟩
  | some b => exact ⟨fun h => congrArg _ (Except.ok.inj h), fun h => congrArg _ (Option.some.inj h)⟩

theorem bind_eq_ok {α β : Type} {x : Except Fault α} {next : α → Except Fault β} {b : β} :
    (x >>= next) = .ok b ↔ ∃ a, x = .ok a ∧ next a = .ok b := by
  cases x with
  | error fault => exact ⟨nofun, nofun⟩
  | ok a =>
    refine ⟨fun h => ⟨a, rfl, h⟩, ?_⟩
    rintro ⟨_, ⟨⟩, h⟩
    exact h

/-- Items are read as the first one and what goes on behind a comma, or as the last one. -/
theorem cases_of_items? (h : items? nesting fuel before chars = .ok (value, rest)) :
    ∃ less item after, fuel = less + 1 ∧ value? nesting less chars = .ok (item, after) ∧
      ((∃ more, skipBlanks after = ',' :: more ∧
          items? nesting less (item :: before) (skipBlanks more) = .ok (value, rest)) ∨
        skipBlanks after = ']' :: rest ∧ value = .arr (item :: before).reverse) := by
  cases fuel with
  | zero =>
    rw [items?] at h
    cases h
  | succ fuel =>
    rw [items?, bind_eq_ok] at h
    obtain ⟨⟨item, after⟩, hitem, h⟩ := h
    refine ⟨fuel, item, after, rfl, hitem, ?_⟩
    dsimp only at h
    split at h
    · rename_i more hcomma
      exact .inl ⟨more, hcomma, h⟩
    · rename_i hbracket
      cases h
      exact .inr ⟨hbracket, rfl⟩
    · cases h

/-- The value of a list starts with its items so far. -/
theorem exists_items_of_items? (h : items? nesting fuel before chars = .ok (value, rest)) :
    ∃ item items, value = .arr (before.reverse ++ item :: items) := by
  induction fuel generalizing before chars with
  | zero =>
    rw [items?] at h
    cases h
  | succ fuel ih =>
    obtain ⟨_, item, after, ⟨⟩, -, ⟨more, -, hmore⟩ | ⟨-, hvalue⟩⟩ := cases_of_items? h
    · obtain ⟨next, items, hvalue⟩ := ih hmore
      exact ⟨item, next :: items, by simp [hvalue]⟩
    · exact ⟨item, [], by simp [hvalue]⟩

/-- A value that starts with a bracket is a list. -/
theorem exists_items_of_value? (h : value? nesting fuel ('[' :: chars) = .ok (value, rest)) :
    ∃ items, value = .arr items := by
  cases fuel with
  | zero =>
    rw [value?] at h
    cases h
  | succ fuel =>
    rw [value?] at h
    split_ifs at h
    split at h
    · cases h
      exact ⟨[], rfl⟩
    · obtain ⟨item, items, hvalue⟩ := exists_items_of_items? h
      exact ⟨_, hvalue⟩

theorem exists_fields_of_fields? {before : List (Text.Wide × Json)}
    (h : fields? nesting fuel before chars = .ok (value, rest)) :
    ∃ fields, value = .obj fields := by
  induction fuel generalizing before chars with
  | zero =>
    rw [fields?] at h
    cases h
  | succ fuel ih =>
    rw [fields?.eq_def] at h
    split at h
    · cases h
    · rename_i hfuel
      cases hfuel
      obtain ⟨⟨name, after⟩, -, h⟩ := bind_eq_ok.1 h
      dsimp only at h
      split at h
      · obtain ⟨⟨item, behind⟩, -, h⟩ := bind_eq_ok.1 h
        dsimp only at h
        split at h
        · exact ih h
        · cases h
          exact ⟨_, rfl⟩
        · cases h
      · cases h
    · cases h

theorem number?_ne_str (negative : Bool) (chars rest : List Char) (text : Text.Wide) :
    number? negative chars ≠ some (.str text, rest) := by
  unfold number?
  dsimp only
  rw [ne_eq, Option.bind_eq_some_iff]
  rintro ⟨⟨digits, after⟩, -, h⟩
  dsimp only at h
  split_ifs at h <;> cases h

theorem text?_of_scalar? {text : Text.Wide} (h : scalar? chars = some (.str text, rest)) :
    ∃ more, chars = '"' :: more ∧ text? .nothing more = some (text, rest) := by
  unfold scalar? at h
  split at h
  · rename_i found hword
    cases h
    obtain ⟨⟨word, value⟩, hmem, hfound⟩ := List.exists_of_findSome?_eq_some hword
    obtain ⟨after, -, heq⟩ := Option.map_eq_some_iff.1 hfound
    cases heq
    simp [words] at hmem
  · split at h
    · rename_i more hnone
      obtain ⟨⟨read, after⟩, hread, heq⟩ := Option.map_eq_some_iff.1 h
      cases heq
      exact ⟨more, rfl, hread⟩
    · exact absurd h (number?_ne_str true _ _ _)
    · exact absurd h (number?_ne_str false _ _ _)

/-- Only a text is read as one. -/
theorem text?_of_value? {text : Text.Wide}
    (h : value? nesting fuel chars = .ok (.str text, rest)) :
    ∃ more, chars = '"' :: more ∧ text? .nothing more = some (text, rest) := by
  rw [value?.eq_def] at h
  split at h
  · cases h
  · split_ifs at h
    split at h
    · cases h
    · obtain ⟨item, items, hvalue⟩ := exists_items_of_items? h
      cases hvalue
  · split_ifs at h
    split at h
    · cases h
    · obtain ⟨fields, hvalue⟩ := exists_fields_of_fields? h
      cases hvalue
  · exact text?_of_scalar? (orMalformed_eq_ok.1 h)

end

theorem length_skipBlanks_le (chars : List Char) : (skipBlanks chars).length ≤ chars.length :=
  (List.dropWhile_sublist _).length_le

/-- The texts of a list start with a quote. -/
theorem skipBlanks_listed (text : String) (others : List String) (rest : List Char) :
    skipBlanks (listed rest (text :: others)) = listed rest (text :: others) := by
  cases others <;> rfl

section

variable {nesting fuel : Nat} {before : List Json} {chars rest : List Char}

/-- What is read of a list whose first item is a text. -/
theorem first_of_items? {text : String} {others : List String}
    (h : items? nesting fuel before chars =
      .ok (.arr (before.reverse ++ ofTexts (text :: others)), rest)) :
    ∃ more after less, chars = '"' :: more ∧ text? .nothing more = some (.plain text, after) ∧
      (others = [] ∧ skipBlanks after = ']' :: rest ∨
        ∃ later, others ≠ [] ∧ skipBlanks after = ',' :: later ∧
          items? nesting less (.str text :: before) (skipBlanks later) =
            .ok (.arr ((Json.str text :: before).reverse ++ ofTexts others), rest)) := by
  obtain ⟨less, item, after, rfl, hitem, ⟨later, hcomma, hmore⟩ | ⟨hbracket, hvalue⟩⟩ :=
    cases_of_items? h
  · obtain ⟨next, items, hvalue⟩ := exists_items_of_items? hmore
    rw [Json.arr.injEq, List.reverse_cons, List.append_assoc, List.append_cancel_left_eq,
      ofTexts_cons] at hvalue
    obtain ⟨rfl, hothers⟩ := List.cons.inj hvalue
    obtain ⟨more, rfl, hread⟩ := text?_of_value? hitem
    refine ⟨more, after, less, rfl, hread, .inr ⟨later, ?_, hcomma, ?_⟩⟩
    · rintro rfl
      cases hothers
    · rw [hmore]
      simp [ofTexts]
  · rw [Json.arr.injEq, List.reverse_cons, List.append_cancel_left_eq, ofTexts_cons] at hvalue
    obtain ⟨rfl, hothers⟩ := List.cons.inj hvalue
    obtain ⟨more, rfl, hread⟩ := text?_of_value? hitem
    refine ⟨more, after, less, rfl, hread, .inl ⟨?_, hbracket⟩⟩
    exact List.map_eq_nil_iff.1 hothers

/-- A list of texts takes as many characters as it would without escapes, at least. -/
theorem length_le_of_items? {texts : List String} (hne : texts ≠ [])
    (h : items? nesting fuel before chars = .ok (.arr (before.reverse ++ ofTexts texts), rest)) :
    listLength texts + rest.length ≤ chars.length := by
  induction texts generalizing fuel before chars with
  | nil => exact absurd rfl hne
  | cons text others ih =>
    obtain ⟨more, after, less, rfl, hread, hnext⟩ := first_of_items? h
    have hfirst : text.toList.length + after.length + 1 ≤ more.length := by
      rcases (readsTo_of_text? hread).found with ⟨plain, -, rfl, htext⟩ | hless
      · rw [htext]
        simp only [Begun.nothing, List.reverse_nil, List.nil_append, List.length_append,
          List.length_cons]
        omega
      · rw [Begun.nothing, List.length_nil] at hless
        omega
    have hafter := length_skipBlanks_le after
    simp only [listLength, List.length_cons] at ih ⊢
    rcases hnext with ⟨rfl, hbracket⟩ | ⟨later, hothers, hcomma, hitems⟩
    · have hnone : listLength [] = 0 := rfl
      rw [hbracket, List.length_cons] at hafter
      omega
    · have hlater := length_skipBlanks_le later
      have hmore := ih hothers hitems
      rw [hcomma, List.length_cons] at hafter
      omega

/-- If the first text of a list were read beyond its closing quote, too little would be left. -/
theorem exists_behind_of_items? {text : String} {others : List String} {more after left : List Char}
    {less : Nat} (hleft : rest.length ≤ left.length)
    (hmore : listed rest (text :: others) = '"' :: more)
    (hnext : others = [] ∧ skipBlanks after = ']' :: left ∨
      ∃ later, others ≠ [] ∧ skipBlanks after = ',' :: later ∧
        items? nesting less before (skipBlanks later) =
          .ok (.arr (before.reverse ++ ofTexts others), left)) :
    ∃ behind, more = text.toList ++ '"' :: behind ∧ behind.length ≤ after.length := by
  have hafter := length_skipBlanks_le after
  cases others with
  | nil =>
    refine ⟨']' :: rest, (List.cons.inj hmore).2.symm, ?_⟩
    obtain ⟨-, hbracket⟩ | ⟨later, hothers, -⟩ := hnext
    · rw [hbracket, List.length_cons] at hafter
      rw [List.length_cons]
      omega
    · exact absurd rfl hothers
  | cons other others =>
    refine ⟨',' :: listed rest (other :: others), (List.cons.inj hmore).2.symm, ?_⟩
    obtain ⟨hnil, -⟩ | ⟨later, hothers, hcomma, hitems⟩ := hnext
    · cases hnil
    · have hlater := length_skipBlanks_le later
      have hlong := length_le_of_items? hothers hitems
      rw [hcomma, List.length_cons] at hafter
      rw [List.length_cons, length_listed hothers]
      omega

/-- A list that is read back without a character left over holds no escape. -/
theorem isUnescaped_of_items? {left : List Char} {texts : List String} (hne : texts ≠ [])
    (hleft : rest.length ≤ left.length)
    (h : items? nesting fuel before (listed rest texts) =
      .ok (.arr (before.reverse ++ ofTexts texts), left)) :
    ∀ text ∈ texts, IsUnescaped text := by
  induction texts generalizing fuel before with
  | nil => exact absurd rfl hne
  | cons text others ih =>
    obtain ⟨more, after, less, hmore, hread, hnext⟩ := first_of_items? h
    obtain ⟨behind, hbehind, hlength⟩ := exists_behind_of_items? hleft hmore hnext
    obtain ⟨plain, hplain, hsplit, htext⟩ | hless := (readsTo_of_text? hread).found
    · have htext : text.toList = plain := htext
      rw [hbehind, htext] at hsplit
      obtain rfl := (List.cons.inj (List.append_cancel_left hsplit)).2
      have hfirst : IsUnescaped text := by
        intro c hc
        rw [htext] at hc
        exact hplain c hc
      refine List.forall_mem_cons.2 ⟨hfirst, ?_⟩
      obtain ⟨rfl, -⟩ | ⟨later, hothers, hcomma, hitems⟩ := hnext
      · simp
      · obtain ⟨other, others, rfl⟩ := List.exists_cons_of_ne_nil hothers
        have hlisted : skipBlanks later = listed rest (other :: others) := by
          have htail := (List.cons.inj hmore).2
          rw [hbehind] at htail
          obtain rfl := (List.cons.inj (List.append_cancel_left htail)).2
          have hlater : listed rest (other :: others) = later := (List.cons.inj hcomma).2
          rw [← hlater]
          exact skipBlanks_listed other others rest
        rw [hlisted] at hitems
        exact ih hothers hitems
    · rw [hbehind] at hless
      simp only [Begun.nothing, List.length_append, List.length_cons, List.length_nil] at hless
      omega

theorem items?_more {later : List Char} {item : Json}
    (h : value? nesting fuel chars = .ok (item, ',' :: later)) :
    items? nesting (fuel + 1) before chars =
      items? nesting fuel (item :: before) (skipBlanks later) := by
  have hcomma : skipBlanks (',' :: later) = ',' :: later := rfl
  rw [items?]
  simp only [bind, Except.bind, h, hcomma]

theorem items?_last {item : Json} (h : value? nesting fuel chars = .ok (item, ']' :: rest)) :
    items? nesting (fuel + 1) before chars = .ok (.arr (item :: before).reverse, rest) := by
  have hbracket : skipBlanks (']' :: rest) = ']' :: rest := rfl
  rw [items?]
  simp only [bind, Except.bind, h, hbracket]

end

/-- Texts without characters to escape are read one after the other. -/
theorem items?_listed {texts : List String} (hne : texts ≠ [])
    (h : ∀ text ∈ texts, IsUnescaped text) (before : List Json) (rest : List Char)
    (nesting : Nat) {fuel : Nat} (hfuel : listLength texts ≤ fuel) :
    items? nesting fuel before (listed rest texts) =
      .ok (.arr (before.reverse ++ ofTexts texts), rest) := by
  induction texts generalizing before fuel with
  | nil => exact absurd rfl hne
  | cons text others ih =>
    obtain ⟨hfirst, hothers⟩ := List.forall_mem_cons.1 h
    simp only [listLength] at hfuel
    obtain ⟨fuel, rfl⟩ : ∃ less, fuel = less + 2 := ⟨fuel - 2, by omega⟩
    have hread : ∀ behind, value? nesting (fuel + 1) ('"' :: (text.toList ++ '"' :: behind)) =
        .ok (.str text, behind) := by
      intro behind
      apply value?_text
      rw [text?_unescaped hfirst, Begun.nothing, text_foldl_add]
      simp
    cases others with
    | nil =>
      rw [listed, items?_last (hread _)]
      simp [ofTexts]
    | cons other others =>
      have hfuel : listLength (other :: others) ≤ fuel + 1 := by
        simp only [listLength] at hfuel ⊢
        omega
      have hmore := ih (List.cons_ne_nil other others) hothers (.str text :: before) hfuel
      have hstart : listed rest (text :: other :: others) =
          '"' :: (text.toList ++ '"' :: ',' :: listed rest (other :: others)) := rfl
      rw [hstart, items?_more (hread _), skipBlanks_listed, hmore]
      simp [ofTexts]

end Reader

/-- A text that is written as a list is read as these texts exactly when none of their characters
has to be escaped. -/
theorem read?_listed_iff {list : String} {texts : List String}
    (hlist : list.toList = '[' :: listed [] texts) :
    read? list = some (.arr (ofTexts texts)) ↔ ∀ text ∈ texts, IsUnescaped text := by
  have hbracket : Reader.skipBlanks ('[' :: listed [] texts) = '[' :: listed [] texts := rfl
  have hlevel : list.length ≠ 0 := by
    rw [← String.length_toList, hlist, List.length_cons]
    exact Nat.succ_ne_zero _
  unfold read? read
  dsimp only
  rw [hlist, hbracket]
  cases texts with
  | nil => simp [listed, ofTexts, Reader.value?, Reader.skipBlanks, hlevel, Except.toOption]
  | cons text others =>
    obtain ⟨fuel, hfuel⟩ : ∃ fuel, 2 * ('[' :: listed [] (text :: others)).length = fuel + 1 :=
      ⟨2 * (listed [] (text :: others)).length + 1, by rw [List.length_cons]; omega⟩
    have hvalue : Reader.value? list.length (2 * ('[' :: listed [] (text :: others)).length)
        ('[' :: listed [] (text :: others)) =
        Reader.items? (list.length - 1) fuel [] (listed [] (text :: others)) := by
      rw [hfuel, Reader.value?, if_neg hlevel, Reader.skipBlanks_listed]
      cases others <;> rfl
    have hlength := length_listed (List.cons_ne_nil text others) []
    rw [hvalue]
    constructor
    · intro h
      split at h
      · rename_i value left hitems
        split at h
        · obtain rfl := Option.some.inj h
          exact Reader.isUnescaped_of_items? (List.cons_ne_nil text others) (Nat.zero_le _) hitems
        · cases h
      · cases h
    · intro h
      rw [Reader.items?_listed (List.cons_ne_nil text others) h [] []]
      · rfl
      · rw [List.length_cons, hlength, List.length_nil] at hfuel
        omega

end RateLedger.Json
