import Mathlib.Data.Nat.Find
import RateLedger.Json.Reader

/-!
# How deep a text is nested

The limit on nesting matters to the reader in one way only: every text has a depth, and it is
refused as too deep if the limit lies below it, and read the same under all other limits
(`exists_depth`). The depth is no more than the length of the text; and for every limit there are
texts beyond it (`read_brackets`).
-/

namespace RateLedger.Json

namespace Reader

/-- What is read under a limit is read under a larger one as well, unless it is too deep for the
limit, which it is not if that is enough. -/
structure Stays (isEnough : Prop) (first second : Except Fault α) : Prop where
  same : first ≠ .error .tooDeep → second = first
  shallow : isEnough → first ≠ .error .tooDeep

section

variable {isEnough : Prop}

theorem Stays.refl {found : Except Fault α} (h : found ≠ .error .tooDeep) :
    Stays isEnough found found := ⟨fun _ => rfl, fun _ => h⟩

theorem Stays.orMalformed (found : Option α) :
    Stays isEnough (orMalformed found) (orMalformed found) := by
  cases found <;> exact .refl nofun

theorem Stays.mono {other : Prop} {first second : Except Fault α} (h : Stays isEnough first second)
    (himp : other → isEnough) : Stays other first second :=
  ⟨h.same, fun hother => h.shallow (himp hother)⟩

theorem Stays.bind {first second : Except Fault α} {next other : α → Except Fault β}
    (h : Stays isEnough first second) (hnext : ∀ a, Stays isEnough (next a) (other a)) :
    Stays isEnough (first.bind next) (second.bind other) := by
  cases first with
  | ok a =>
    rw [h.same nofun]
    exact hnext a
  | error fault =>
    refine ⟨fun hshallow => ?_, fun henough heq => ?_⟩
    · have hfault : second = .error fault :=
        h.same fun heq => hshallow (congrArg (Except.bind · next) heq)
      rw [hfault]
      rfl
    · exact h.shallow henough (congrArg Except.error (Except.error.inj heq))

end

/-! ## Reading under two limits

Where values are nested, one of two counts of the fuel goes with a bracket, so the limit is enough
if it is no less than half of the fuel. -/

section

variable {nesting more fuel : Nat}

/-- Behind a bracket there is one level less, if there is one. -/
theorem stays_enclosed {isEnough : Prop} {first second : Except Fault α} (hle : nesting ≤ more)
    (hlevel : isEnough → nesting ≠ 0) (h : nesting ≠ 0 → Stays isEnough first second) :
    Stays isEnough (if nesting = 0 then .error .tooDeep else first)
      (if more = 0 then .error .tooDeep else second) := by
  by_cases hzero : nesting = 0
  · exact ⟨fun hshallow => absurd (if_pos hzero) hshallow, fun henough =>
      absurd hzero (hlevel henough)⟩
  · rw [if_neg hzero, if_neg (by omega)]
    exact h hzero

theorem stays_value (hle : nesting ≤ more)
    (hitems : ∀ chars, Stays (fuel ≤ 2 * (nesting - 1) + 1)
      (items? (nesting - 1) fuel [] chars) (items? (more - 1) fuel [] chars))
    (hfields : ∀ chars, Stays (fuel ≤ 2 * (nesting - 1) + 1)
      (fields? (nesting - 1) fuel [] chars) (fields? (more - 1) fuel [] chars))
    (chars : List Char) :
    Stays (fuel + 1 ≤ 2 * nesting) (value? nesting (fuel + 1) chars)
      (value? more (fuel + 1) chars) := by
  unfold value?
  split
  · rename_i hcount
    cases hcount
  · rename_i limit count rest hcount
    obtain rfl := Nat.succ.inj hcount
    refine stays_enclosed hle (fun henough => by omega) fun hlevel => ?_
    split
    · exact .refl nofun
    · exact (hitems _).mono fun henough => by omega
  · rename_i limit count rest hcount
    obtain rfl := Nat.succ.inj hcount
    refine stays_enclosed hle (fun henough => by omega) fun hlevel => ?_
    split
    · exact .refl nofun
    · exact (hfields _).mono fun henough => by omega
  · exact .orMalformed _

variable {isEnough : Prop}

theorem stays_items
    (hvalue : ∀ chars, Stays isEnough (value? nesting fuel chars) (value? more fuel chars))
    (hitems : ∀ read chars,
      Stays isEnough (items? nesting fuel read chars) (items? more fuel read chars))
    (read : List Json) (chars : List Char) :
    Stays isEnough (items? nesting (fuel + 1) read chars) (items? more (fuel + 1) read chars) := by
  unfold items?
  refine (hvalue chars).bind fun (item, rest) => ?_
  dsimp only
  split
  · exact hitems _ _
  · exact .refl nofun
  · exact .refl nofun

theorem stays_fields
    (hvalue : ∀ chars, Stays isEnough (value? nesting fuel chars) (value? more fuel chars))
    (hfields : ∀ read chars,
      Stays isEnough (fields? nesting fuel read chars) (fields? more fuel read chars))
    (read : List (Text.Wide × Json)) (chars : List Char) :
    Stays isEnough (fields? nesting (fuel + 1) read chars)
      (fields? more (fuel + 1) read chars) := by
  unfold fields?
  split
  · rename_i hcount
    cases hcount
  · rename_i limit count read chars hcount
    obtain rfl := Nat.succ.inj hcount
    refine Stays.bind (.orMalformed _) fun (name, rest) => ?_
    dsimp only
    split
    · refine (hvalue _).bind fun (value, rest) => ?_
      dsimp only
      split
      · exact hfields _ _
      · exact .refl nofun
      · exact .refl nofun
    · exact .refl nofun
  · exact .refl nofun

theorem stays (fuel : Nat) {nesting more : Nat} (hle : nesting ≤ more) :
    (∀ chars, Stays (fuel ≤ 2 * nesting) (value? nesting fuel chars) (value? more fuel chars)) ∧
      (∀ read chars, Stays (fuel ≤ 2 * nesting + 1) (items? nesting fuel read chars)
        (items? more fuel read chars)) ∧
      ∀ read chars, Stays (fuel ≤ 2 * nesting + 1) (fields? nesting fuel read chars)
        (fields? more fuel read chars) := by
  induction fuel generalizing nesting more with
  | zero =>
    unfold value? items? fields?
    exact ⟨fun _ => .refl nofun, fun _ _ => .refl nofun, fun _ _ => .refl nofun⟩
  | succ fuel ih =>
    obtain ⟨hvalue, hitems, hfields⟩ := ih hle
    have hinner : ∀ chars, Stays (fuel + 1 ≤ 2 * nesting + 1) (value? nesting fuel chars)
        (value? more fuel chars) := fun chars => (hvalue chars).mono Nat.le_of_succ_le_succ
    obtain ⟨-, hitemsWithin, hfieldsWithin⟩ := ih (Nat.sub_le_sub_right hle 1)
    exact ⟨stays_value hle (hitemsWithin []) (hfieldsWithin []),
      stays_items hinner fun read chars => (hitems read chars).mono Nat.le_of_succ_le,
      stays_fields hinner fun read chars => (hfields read chars).mono Nat.le_of_succ_le⟩

end

end Reader

/-! ## The depth of a text -/

theorem stays_read (text : String) {nesting more : Nat} (hle : nesting ≤ more) :
    Reader.Stays (text.length ≤ nesting) (read nesting text) (read more text) := by
  have hlength : (Reader.skipBlanks text.toList).length ≤ text.length :=
    (List.dropWhile_suffix _).length_le
  have hvalue := (Reader.stays (2 * (Reader.skipBlanks text.toList).length) hle).1
    (Reader.skipBlanks text.toList)
  have hread : ∀ limit, read limit text = (Reader.value? limit
      (2 * (Reader.skipBlanks text.toList).length) (Reader.skipBlanks text.toList)).bind
        fun found => if (Reader.skipBlanks found.2).isEmpty then .ok found.1
          else .error .malformed := by
    intro limit
    unfold read
    dsimp only
    cases Reader.value? limit _ _ <;> rfl
  rw [hread, hread]
  refine (hvalue.mono fun henough => by omega).bind fun found => ?_
  split <;> exact .refl nofun

/-- Every text has a depth, which is no more than its length: under a lower limit it is too deep,
and under all others it is read in the same way. -/
theorem exists_depth (text : String) :
    ∃ depth ≤ text.length, (∀ nesting < depth, read nesting text = .error .tooDeep) ∧
      ∀ nesting, depth ≤ nesting →
        read nesting text ≠ .error .tooDeep ∧ read nesting text = read text.length text := by
  classical
  have hlength : read text.length text ≠ .error .tooDeep :=
    (stays_read text (Nat.le_refl _)).shallow (Nat.le_refl _)
  have hexists : ∃ nesting, read nesting text ≠ .error .tooDeep := ⟨_, hlength⟩
  refine ⟨Nat.find hexists, Nat.find_min' hexists hlength, fun nesting hless => ?_,
    fun nesting hle => ?_⟩
  · exact not_not.1 (Nat.find_min hexists hless)
  · have hdepth := Nat.find_spec hexists
    have hsame := (stays_read text hle).same hdepth
    have hwhole := (stays_read text (Nat.find_min' hexists hlength)).same hdepth
    exact ⟨hsame ▸ hdepth, hsame.trans hwhole.symm⟩

theorem value?_brackets (nesting : Nat) (rest : List Char) {fuel : Nat} (h : 2 * nesting < fuel) :
    Reader.value? nesting fuel (List.replicate (nesting + 1) '[' ++ rest) = .error .tooDeep := by
  induction nesting generalizing fuel with
  | zero =>
    obtain ⟨fuel, rfl⟩ : ∃ less, fuel = less + 1 := ⟨fuel - 1, by omega⟩
    rfl
  | succ nesting ih =>
    obtain ⟨fuel, rfl⟩ : ∃ less, fuel = less + 2 := ⟨fuel - 2, by omega⟩
    have hless : 2 * nesting < fuel := by omega
    have hinner := ih hless
    rw [List.replicate_succ, List.cons_append] at hinner ⊢
    rw [List.replicate_succ, List.cons_append]
    have hlist : Reader.value? (nesting + 1) (fuel + 2)
        ('[' :: '[' :: (List.replicate nesting '[' ++ rest)) =
          Reader.items? nesting (fuel + 1) [] ('[' :: (List.replicate nesting '[' ++ rest)) := rfl
    rw [hlist, Reader.items?, hinner]
    rfl

/-- One bracket more than the limit is too deep, whatever follows. -/
theorem read_brackets (nesting : Nat) (rest : List Char) :
    read nesting (String.ofList (List.replicate (nesting + 1) '[' ++ rest)) = .error .tooDeep := by
  have hsolid : Reader.skipBlanks (List.replicate (nesting + 1) '[' ++ rest) =
      List.replicate (nesting + 1) '[' ++ rest := rfl
  have hlength : 2 * nesting < 2 * (List.replicate (nesting + 1) '[' ++ rest).length := by
    rw [List.length_append, List.length_replicate]
    omega
  unfold read
  rw [String.toList_ofList, hsolid]
  dsimp only
  rw [value?_brackets nesting rest hlength]

end RateLedger.Json
