import Mathlib.Data.List.TakeDrop
import RateLedger.Proofs.NumberTexts
import RateLedger.Settings.Load

/-!
# The lines of a settings file

A settings file consists of two comments, an empty line, and a line `NAME=value` for each setting. A
value is taken as it stands if it is on one line, neither starts nor ends with what is dropped or
unquoted there, and holds no sign of a comment behind a blank (`IsVerbatim`). Numbers and truth
values are, so a file whose texts are has the assignments that its lines spell out
(`assignments_fileText`).
-/

namespace RateLedger.Settings

open Text.Blank (isBlank)

/-! ## One line -/

/-- A value that is taken as it stands behind an equals sign. -/
structure IsVerbatim (chars : List Char) : Prop where
  oneLine : chars.all (!isLineEnd ·) = true
  starts : ∀ c ∈ chars.head?, c ≠ '\'' ∧ c ≠ '"' ∧ isLineBlank c = false
  ends : ∀ c ∈ chars.getLast?, isBlank c = false
  uncommented : dropComment [] chars = chars

theorem isVerbatim_iff {chars : List Char} :
    (chars.all (!isLineEnd ·) &&
      chars.head?.all (fun c => c != '\'' && c != '"' && !isLineBlank c) &&
      chars.getLast?.all (!isBlank ·) && dropComment [] chars == chars) = true ↔
      IsVerbatim chars := by
  rw [Bool.and_eq_true, Bool.and_eq_true, Bool.and_eq_true, Option.all_eq_true, Option.all_eq_true,
    beq_iff_eq]
  constructor
  · rintro ⟨⟨⟨oneLine, starts⟩, ends⟩, uncommented⟩
    refine ⟨oneLine, fun c hc => ?_, fun c hc => ?_, uncommented⟩
    · simpa [and_assoc] using starts c hc
    · simpa using ends c hc
  · intro h
    refine ⟨⟨⟨h.oneLine, fun c hc => ?_⟩, fun c hc => ?_⟩, h.uncommented⟩
    · simpa [and_assoc] using h.starts c hc
    · simpa using h.ends c hc

instance (chars : List Char) : Decidable (IsVerbatim chars) := decidable_of_iff _ isVerbatim_iff

/-- A name that stands in front of an equals sign: a capital, and after it neither blanks nor the
signs that end a name. -/
structure IsName (first : Char) (others : List Char) : Prop where
  capital : first.isUpper = true
  solid : ∀ c ∈ first :: others, c ≠ '=' ∧ c ≠ '#' ∧ isBlank c = false

theorem isLineBlank_of_isBlank {c : Char} (h : isBlank c = false) : isLineBlank c = false := by
  rw [isLineBlank, h, Bool.false_and]

theorem takeWhile_line {chars : List Char} (h : chars.all (!isLineEnd ·) = true)
    (rest : List Char) : (chars ++ '\n' :: rest).takeWhile (!isLineEnd ·) = chars := by
  rw [List.takeWhile_append_of_pos (List.all_eq_true.1 h)]
  have hend : (!isLineEnd '\n') = false := rfl
  rw [List.takeWhile_cons_of_neg (by rw [hend]; exact Bool.false_ne_true), List.append_nil]

theorem dropWhile_line {chars : List Char} (h : chars.all (!isLineEnd ·) = true)
    (rest : List Char) : (chars ++ '\n' :: rest).dropWhile (!isLineEnd ·) = '\n' :: rest := by
  rw [List.dropWhile_append_of_pos (List.all_eq_true.1 h)]
  rfl

theorem dropEndBlanks_eq {chars : List Char} (h : ∀ c ∈ chars.getLast?, isBlank c = false) :
    dropEndBlanks chars = chars := by
  unfold dropEndBlanks
  cases hreverse : chars.reverse with
  | nil => rw [List.reverse_eq_nil_iff.1 hreverse]; rfl
  | cons c others =>
    have hlast : chars.getLast? = some c := by
      rw [← List.head?_reverse, hreverse]
      rfl
    rw [List.dropWhile_cons_of_neg (by rw [h c hlast]; exact Bool.false_ne_true), ← hreverse,
      List.reverse_reverse]

section

variable {value : List Char} (rest : List Char)

theorem assignedValue?_verbatim (h : IsVerbatim value) :
    assignedValue? (value ++ '\n' :: rest) = some (value, '\n' :: rest) := by
  have hline : some (dropEndBlanks (dropComment [] ((value ++ '\n' :: rest).takeWhile
      (!isLineEnd ·))), (value ++ '\n' :: rest).dropWhile (!isLineEnd ·)) =
        some (value, '\n' :: rest) := by
    rw [takeWhile_line h.oneLine, dropWhile_line h.oneLine, h.uncommented, dropEndBlanks_eq h.ends]
  cases value with
  | nil => exact hline
  | cons first others =>
    obtain ⟨hsingle, hdouble, hblank⟩ := h.starts first rfl
    have hsame : dropLineBlanks (first :: others ++ '\n' :: rest) =
        first :: (others ++ '\n' :: rest) :=
      List.dropWhile_cons_of_neg (by rw [hblank]; exact Bool.false_ne_true)
    unfold assignedValue?
    rw [hsame]
    split
    · rename_i heq
      exact absurd (List.cons.inj heq).1 hsingle
    · rename_i heq
      exact absurd (List.cons.inj heq).1 hdouble
    · exact hline

theorem assignedName?_name {first : Char} {others : List Char} (h : IsName first others) :
    assignedName? (first :: others ++ '=' :: rest) =
      some (some (first :: others), '=' :: rest) := by
  have hspan : (first :: others ++ '=' :: rest).span (fun c => c != '=' && c != '#' && !isBlank c) =
      (first :: others, '=' :: rest) := by
    have hsolid : ∀ c ∈ first :: others, (c != '=' && c != '#' && !isBlank c) = true := by
      intro c hc
      obtain ⟨hequals, hcomment, hblank⟩ := h.solid c hc
      simp [hequals, hcomment, hblank]
    rw [List.span_eq_takeWhile_dropWhile, List.takeWhile_append_of_pos hsolid,
      List.dropWhile_append_of_pos hsolid]
    simp
  have hcapital := h.capital
  unfold assignedName?
  split
  · rename_i heq
    rw [(List.cons.inj heq).1] at hcapital
    cases hcapital
  · rename_i heq
    rw [(List.cons.inj heq).1] at hcapital
    cases hcapital
  · rw [hspan]

theorem assignment?_line {first : Char} {others : List Char} (hname : IsName first others)
    (hvalue : IsVerbatim value) :
    assignment? (first :: others ++ '=' :: (value ++ '\n' :: rest)) =
      some (some (String.ofList (first :: others), some (String.ofList value)), rest) := by
  have hexport : ∀ more, dropExport (first :: more) = first :: more := by
    intro more
    have hfirst : ('e' == first) = false := by
      rw [beq_eq_false_iff_ne]
      rintro rfl
      exact absurd hname.capital (by decide)
    have hother : "export".toList.isPrefixOf (first :: more) = false := by
      have hword : "export".toList = 'e' :: "xport".toList := rfl
      rw [hword, List.isPrefixOf_cons_cons, hfirst, Bool.false_and]
    unfold dropExport
    dsimp only
    rw [hother, Bool.false_and, if_neg Bool.false_ne_true]
  have hequals : dropLineBlanks ('=' :: (value ++ '\n' :: rest)) =
      '=' :: (value ++ '\n' :: rest) := rfl
  have hend : lineRest? ('\n' :: rest) = some rest := rfl
  unfold assignment?
  rw [List.cons_append, hexport, ← List.cons_append, assignedName?_name _ hname]
  simp [hequals, assignedValue?_verbatim rest hvalue, hend]

/-! ## Lines in a row -/

theorem assignmentsFrom_line {first : Char} {others : List Char} (hname : IsName first others)
    (hvalue : IsVerbatim value) (fuel : Nat) :
    assignmentsFrom (fuel + 1) (first :: others ++ '=' :: (value ++ '\n' :: rest)) =
      (String.ofList (first :: others), some (String.ofList value)) ::
        assignmentsFrom fuel rest := by
  have hline := assignment?_line rest hname hvalue
  have hfirst := (hname.solid first List.mem_cons_self).2.2
  rw [List.cons_append] at hline ⊢
  rw [assignmentsFrom, List.dropWhile_cons_of_neg (by rw [hfirst]; exact Bool.false_ne_true)]
  dsimp only
  rw [hline]
  rfl

theorem assignmentsFrom_comment {comment : List Char} (h : comment.all (!isLineEnd ·) = true)
    (fuel : Nat) :
    assignmentsFrom (fuel + 1) ('#' :: comment ++ '\n' :: rest) = assignmentsFrom fuel rest := by
  have hend := dropWhile_line h rest
  rw [List.cons_append]
  generalize comment ++ '\n' :: rest = line at hend ⊢
  have hrest : lineRest? ('#' :: line) = some rest := by
    have hstay : dropLineBlanks ('#' :: line) = '#' :: line := rfl
    have hsign : List.dropWhile (!isLineEnd ·) ('#' :: line) = line.dropWhile (!isLineEnd ·) := rfl
    unfold lineRest?
    dsimp only
    rw [hstay, List.head?_cons, if_pos rfl, hsign, hend]
    rfl
  have hnone : assignment? ('#' :: line) =
      (lineRest? ('#' :: line)).bind fun rest => some (none, rest) := rfl
  have hfirst : List.dropWhile isBlank ('#' :: line) = '#' :: line := rfl
  rw [assignmentsFrom, hfirst]
  dsimp only
  rw [hnone, hrest]
  rfl

theorem assignmentsFrom_empty (fuel : Nat) :
    assignmentsFrom (fuel + 1) ('\n' :: rest) = assignmentsFrom (fuel + 1) rest := by
  rw [assignmentsFrom, assignmentsFrom]
  rfl

end

/-! ## Numbers and truth values -/

theorem dropComment_of_notMem {chars : List Char} (h : '#' ∉ chars) (before : List Char) :
    dropComment before chars = before.reverse ++ chars := by
  induction chars generalizing before with
  | nil => rw [dropComment, List.append_nil]
  | cons c chars ih =>
    rw [List.mem_cons, not_or] at h
    have hnot : ¬(c = '#' ∧ before.head?.any isBlank = true) := fun hsign => h.1 hsign.1.symm
    rw [dropComment, if_neg hnot, ih h.2]
    simp

theorem isLineEnd_of_isBlank {c : Char} (h : isBlank c = false) : isLineEnd c = false := by
  cases hend : isLineEnd c with
  | false => rfl
  | true =>
    rw [isLineEnd, Bool.or_eq_true, beq_iff_eq, beq_iff_eq] at hend
    rcases hend with rfl | rfl <;> cases h

/-- What is written with the characters of numerals is taken as it stands. -/
theorem isVerbatim_of_isNumeral {chars : List Char}
    (h : ∀ c ∈ chars, Number.Numeral.isNumeral c = true) : IsVerbatim chars := by
  have hblank : ∀ c ∈ chars, isBlank c = false :=
    fun c hc => Number.Numeral.isBlank_of_isNumeral (h c hc)
  have hnot : ∀ c, Number.Numeral.isNumeral c = false → c ∉ chars := by
    intro c hc hmem
    rw [h c hmem] at hc
    cases hc
  refine ⟨List.all_eq_true.2 fun c hc => ?_, fun c hc => ?_, fun c hc => ?_, ?_⟩
  · rw [isLineEnd_of_isBlank (hblank c hc)]
    rfl
  · have hmem := List.mem_of_mem_head? hc
    refine ⟨?_, ?_, isLineBlank_of_isBlank (hblank c hmem)⟩
    · rintro rfl
      exact hnot _ rfl hmem
    · rintro rfl
      exact hnot _ rfl hmem
  · exact hblank c (List.mem_of_mem_getLast? hc)
  · exact dropComment_of_notMem (hnot '#' rfl) []

theorem isVerbatim_float (x : Binary64) : IsVerbatim (valueText (.float x)).toList :=
  isVerbatim_of_isNumeral (Number.Shortest.isNumeral_ofBinary64 x)

theorem isVerbatim_int (i : Int) : IsVerbatim (valueText (.int i)).toList :=
  isVerbatim_of_isNumeral (Number.Numeral.isNumeral_ofInt i)

theorem isVerbatim_bool (value : Bool) : IsVerbatim (valueText (.bool value)).toList := by
  cases value with
  | true => exact isVerbatim_iff.1 rfl
  | false => exact isVerbatim_iff.1 rfl

/-! ## The whole file -/

section

variable (settings : Settings)

/-- The list of the pairs to poll, as a settings file has it. -/
def listText : String := valueText (.arr (settings.polled.map fun written => .str written.text))

/-- The texts among the values of a settings file. -/
def freeTexts : List String := [settings.apiKey, settings.baseUrl, settings.root.text,
  settings.host, settings.listText, settings.logLevel]

/-- The assignments that the lines of a settings file spell out. -/
def assigned : List Assignment :=
  settings.entries.map fun (name, value) => (variableName name, some (valueText value))

end

theorem toList_variableName (name : String) :
    (variableName name).toList = 'O' :: ("RACLE_".toList ++ name.toList.map Char.toUpper) := by
  simp [variableName, String.toUpper]

theorem isName_of_mem_names {name : String} (h : name ∈ names) :
    IsName 'O' ("RACLE_".toList ++ name.toList.map Char.toUpper) := by
  have hall : (names.all fun name => ('O' :: ("RACLE_".toList ++ name.toList.map Char.toUpper)).all
      fun c => c != '=' && c != '#' && !isBlank c) = true := rfl
  refine ⟨rfl, fun c hc => ?_⟩
  have hc := List.all_eq_true.1 (List.all_eq_true.1 hall name h) c hc
  simpa [and_assoc] using hc

theorem toList_unlines (first : String) (others : List String) :
    (String.intercalate "\n" (first :: others) ++ "\n").toList =
      (first :: others).flatMap fun line => line.toList ++ ['\n'] := by
  have hend : "\n".toList = ['\n'] := rfl
  rw [String.toList_append, String.toList_intercalate, hend]
  induction others generalizing first with
  | nil => simp [List.intercalate_singleton]
  | cons other others ih =>
    have hmore := ih other
    rw [List.map_cons] at hmore
    rw [List.map_cons, List.map_cons, List.intercalate_cons_cons, List.append_assoc, hmore,
      List.flatMap_cons]
    rfl

theorem assignmentsFrom_entries {entries : List (String × Json)}
    (hnames : ∀ entry ∈ entries, entry.1 ∈ names)
    (hvalues : ∀ entry ∈ entries, IsVerbatim (valueText entry.2).toList) {fuel : Nat}
    (hfuel : entries.length ≤ fuel) :
    assignmentsFrom fuel (entries.flatMap fun (name, value) =>
      (variableName name ++ "=" ++ valueText value).toList ++ ['\n']) =
      entries.map fun (name, value) => (variableName name, some (valueText value)) := by
  induction entries generalizing fuel with
  | nil => cases fuel <;> rfl
  | cons entry entries ih =>
    obtain ⟨name, value⟩ := entry
    obtain ⟨hname, hnames⟩ := List.forall_mem_cons.1 hnames
    obtain ⟨hvalue, hvalues⟩ := List.forall_mem_cons.1 hvalues
    rw [List.length_cons] at hfuel
    obtain ⟨fuel, rfl⟩ : ∃ less, fuel = less + 1 := ⟨fuel - 1, by omega⟩
    have hmore := ih hnames hvalues (Nat.le_of_succ_le_succ hfuel)
    have hline : ∀ rest, (variableName name ++ "=" ++ valueText value).toList ++ ['\n'] ++ rest =
        'O' :: ("RACLE_".toList ++ name.toList.map Char.toUpper) ++
          '=' :: ((valueText value).toList ++ '\n' :: rest) := by
      simp [toList_variableName]
    have hsame : String.ofList ('O' :: ("RACLE_".toList ++ name.toList.map Char.toUpper)) =
        variableName name := by
      rw [← toList_variableName, String.ofList_toList]
    rw [List.flatMap_cons, List.map_cons]
    dsimp only
    rw [hline, assignmentsFrom_line _ (isName_of_mem_names hname) hvalue, hmore, hsame,
      String.ofList_toList]

/-- A file whose texts are taken as they stand is read line by line. -/
theorem assignments_fileText {settings : Settings}
    (h : ∀ text ∈ settings.freeTexts, IsVerbatim text.toList) :
    assignments settings.fileText = settings.assigned := by
  have hnames : ∀ entry ∈ settings.entries, entry.1 ∈ names := by
    intro entry hentry
    rw [← settings.map_fst_entries]
    exact List.mem_map_of_mem hentry
  have hvalues : ∀ entry ∈ settings.entries, IsVerbatim (valueText entry.2).toList := by
    simp only [freeTexts, List.forall_mem_cons] at h
    obtain ⟨hkey, hurl, hroot, hhost, hlist, hlevel, -⟩ := h
    simp only [entries, List.forall_mem_cons]
    exact ⟨hkey, hurl, isVerbatim_float _, hroot, hhost, isVerbatim_int _, isVerbatim_bool _, hlist,
      isVerbatim_int _, isVerbatim_int _, isVerbatim_float _, hlevel, by simp⟩
  have htext : settings.fileText.toList =
      '#' :: " Generated configuration for the FX oracle.".toList ++ '\n' :: ('#' ::
        " Every value may also be set as an environment variable of the same name.".toList ++
          '\n' :: '\n' :: settings.entries.flatMap fun (name, value) =>
            (variableName name ++ "=" ++ valueText value).toList ++ ['\n']) := by
    unfold fileText lines
    rw [List.cons_append, toList_unlines]
    simp [List.flatMap_map]
  obtain ⟨fuel, hfuel, hlong⟩ : ∃ fuel, settings.fileText.length = fuel + 2 ∧ 12 ≤ fuel + 1 := by
    refine ⟨settings.fileText.length - 2, ?_⟩
    have hlength := congrArg List.length htext
    rw [String.length_toList, List.length_append, List.length_cons] at hlength
    have hcomment : " Generated configuration for the FX oracle.".toList.length = 43 := rfl
    omega
  unfold assignments
  rw [htext, hfuel, assignmentsFrom_comment _ rfl, assignmentsFrom_comment _ rfl,
    assignmentsFrom_empty]
  exact assignmentsFrom_entries hnames hvalues hlong

end RateLedger.Settings
