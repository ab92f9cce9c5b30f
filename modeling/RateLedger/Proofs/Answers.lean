import RateLedger.Vendor.Client

/-!
# What a vendor can say

A text that is written as JSON is read back, whatever its characters are and however long it is, and
so is an object of such texts, if the reader goes as deep (`IsReadBack`). So an answer in which a
vendor names a pair can hold any two codes, and is read as an observation of these if they are not
empty and differ (`Vendor.Client.readDelivery_answer`).
-/

namespace RateLedger

namespace Json

namespace Reader

/-- An escape that is no half of a surrogate pair stands for its own character, whatever follows. -/
theorem text?_unit {a b c d : Char} {code : Nat} (h : unit? a b c d = some code)
    (hcode : code < 0xD800) (begun : Begun) (rest : List Char) :
    text? begun ('\\' :: 'u' :: a :: b :: c :: d :: rest) =
      text? (begun.add (Char.ofNat code)) rest := by
  have hadd : begun.addCode code = begun.add (Char.ofNat code) := by
    unfold Begun.addCode Text.Half.ofCode?
    rw [dif_neg (by omega)]
  rw [text?.eq_def]
  split
  case h_1 heq => cases heq
  case h_2 heq =>
    -- the next escape is looked at, but the code before it is no high half
    cases heq
    rw [h]
    cases unit? _ _ _ _ with
    | none => exact congrArg (text? · _) hadd
    | some low =>
      dsimp only
      rw [if_neg (by omega), hadd]
  case h_3 heq =>
    cases heq
    rw [h]
    exact congrArg (text? · _) hadd
  case h_4 hno heq =>
    cases heq
    exact absurd rfl (hno _ _ _ _ _ rfl)
  case h_5 hno heq =>
    cases heq
    exact absurd rfl (hno _ _ rfl)
  case h_6 heq => cases heq

theorem text?_plain {c : Char} (hquote : c ≠ '"') (hslash : c ≠ '\\') (hcode : 32 ≤ c.toNat)
    (begun : Begun) (rest : List Char) : text? begun (c :: rest) = text? (begun.add c) rest := by
  rw [text?.eq_def]
  split
  case h_1 heq =>
    cases heq
    exact absurd rfl hquote
  case h_2 heq | h_3 heq | h_4 heq =>
    cases heq
    exact absurd rfl hslash
  case h_5 heq =>
    cases heq
    exact if_neg (not_or.2 ⟨by omega, hslash⟩)
  case h_6 heq => cases heq

theorem number?_padded : ∀ code < 128, (Text.Hex.padded 4 code).length = 4 ∧
    Text.Hex.number? (Text.Hex.padded 4 code) = some code := by
  decide

/-- A character is read back from its written form. -/
theorem text?_escape (c : Char) (begun : Begun) (rest : List Char) :
    text? begun (escape c ++ rest) = text? (begun.add c) rest := by
  unfold escape
  by_cases hspecial : c = '"' ∨ c = '\\'
  · rw [if_pos hspecial]
    rcases hspecial with rfl | rfl
    · rfl
    · rfl
  · obtain ⟨hquote, hslash⟩ := not_or.1 hspecial
    rw [if_neg hspecial]
    by_cases hcontrol : c.toNat < 32 ∨ c.toNat = 127
    · rw [if_pos hcontrol]
      have hcode : c.toNat < 128 := by omega
      obtain ⟨hlength, hnumber⟩ := number?_padded c.toNat hcode
      generalize Text.Hex.padded 4 c.toNat = digits at hlength hnumber ⊢
      match digits, hlength with
      | [d₁, d₂, d₃, d₄], _ =>
        refine (text?_unit hnumber (by omega) begun rest).trans ?_
        rw [Char.ofNat_toNat]
    · rw [if_neg hcontrol]
      exact text?_plain hquote hslash (by omega) begun rest

theorem text?_quoted (chars : List Char) (begun : Begun) (rest : List Char) :
    text? begun (chars.flatMap escape ++ '"' :: rest) =
      some ((chars.foldl Begun.add begun).text, rest) := by
  induction chars generalizing begun with
  | nil => simp [text?]
  | cons c chars ih =>
    rw [List.flatMap_cons, List.append_assoc, text?_escape, ih]
    rfl

theorem text_foldl_add (chars read : List Char) :
    (chars.foldl Begun.add ⟨[], read⟩).text = String.ofList (read.reverse ++ chars) := by
  induction chars generalizing read with
  | nil =>
    rw [List.append_nil]
    rfl
  | cons c chars ih =>
    rw [List.foldl_cons]
    refine (ih (c :: read)).trans ?_
    rw [List.reverse_cons, List.append_assoc]
    rfl

/-- A text is read back from its written form, whatever follows. -/
theorem text?_quote (text : String) (rest : List Char) :
    ∃ chars, (quote text).toList ++ rest = '"' :: chars ∧
      text? .nothing chars = some (.plain text, rest) := by
  refine ⟨text.toList.flatMap escape ++ '"' :: rest, ?_, ?_⟩
  · simp [quote, Text.Wide.spell]
  · rw [text?_quoted, Begun.nothing, text_foldl_add]
    simp

theorem value?_text {chars rest : List Char} {text : Text.Wide}
    (h : text? .nothing chars = some (text, rest)) (nesting fuel : Nat) :
    value? nesting (fuel + 1) ('"' :: chars) = .ok (.str text, rest) := by
  have hscalar : value? nesting (fuel + 1) ('"' :: chars) =
      orMalformed (scalar? ('"' :: chars)) := by
    rw [value?] <;> rintro _ ⟨⟩
  rw [hscalar]
  show orMalformed ((text? .nothing chars).map _) = _
  rw [h]
  rfl

theorem value?_fields (nesting fuel : Nat) (chars : List Char) :
    value? (nesting + 1) (fuel + 1) ('\x7b' :: '"' :: chars) =
      fields? nesting fuel [] ('"' :: chars) := by
  have hquote : skipBlanks ('"' :: chars) = '"' :: chars := rfl
  rw [value?, if_neg (Nat.succ_ne_zero nesting), hquote]
  rfl

/-! ## One field -/

section

variable {nesting fuel : Nat} {before : List (Text.Wide × Json)} {chars rest more : List Char}
  {name : Text.Wide} {value : Json}

theorem fields?_more (hname : text? .nothing chars = some (name, ':' :: rest))
    (hvalue : value? nesting fuel (skipBlanks rest) = .ok (value, ',' :: more)) :
    fields? nesting (fuel + 1) before ('"' :: chars) =
      fields? nesting fuel ((name, value) :: before) (skipBlanks more) := by
  have hcolon : skipBlanks (':' :: rest) = ':' :: rest := rfl
  have hcomma : skipBlanks (',' :: more) = ',' :: more := rfl
  rw [fields?, hname]
  simp only [orMalformed, bind, Except.bind, hcolon, hvalue, hcomma]

theorem fields?_last (hname : text? .nothing chars = some (name, ':' :: rest))
    (hvalue : value? nesting fuel (skipBlanks rest) = .ok (value, '\x7d' :: more)) :
    fields? nesting (fuel + 1) before ('"' :: chars) =
      .ok (ofFields ((name, value) :: before).reverse, more) := by
  have hcolon : skipBlanks (':' :: rest) = ':' :: rest := rfl
  have hbrace : skipBlanks ('\x7d' :: more) = '\x7d' :: more := rfl
  rw [fields?, hname]
  simp only [orMalformed, bind, Except.bind, hcolon, hvalue, hbrace]

end

end Reader

/-! ## Writing behind a text -/

mutual

theorem writeOnto_append (a b : String) : ∀ value : Json,
    writeOnto (a ++ b) value = a ++ writeOnto b value
  | .null | .bool _ | .int _ | .float _ | .str _ => by
    simp only [writeOnto, String.append_assoc]
  | .arr items => by
    simp only [writeOnto, String.push_eq_append, String.append_assoc,
      writeItems_append _ _ true items]
  | .obj fields => by
    simp only [writeOnto, String.push_eq_append, String.append_assoc,
      writeFields_append _ _ true fields]

theorem writeItems_append (a b : String) (first : Bool) : ∀ items : List Json,
    writeItems (a ++ b) first items = a ++ writeItems b first items
  | [] => rfl
  | item :: rest => by
    cases first <;>
      simp only [writeItems, String.push_eq_append, String.append_assoc, Bool.false_eq_true,
        if_true, if_false, writeOnto_append _ _ item, writeItems_append _ _ false rest]

theorem writeFields_append (a b : String) (first : Bool) : ∀ fields : List (Text.Wide × Json),
    writeFields (a ++ b) first fields = a ++ writeFields b first fields
  | [] => rfl
  | (name, value) :: rest => by
    cases first <;>
      simp only [writeFields, String.push_eq_append, String.append_assoc, Bool.false_eq_true,
        if_true, if_false, writeOnto_append _ _ value, writeFields_append _ _ false rest]

end

theorem writeOnto_eq (done : String) (value : Json) :
    writeOnto done value = done ++ write value := by
  have h := writeOnto_append done "" value
  rwa [String.append_empty] at h

theorem writeFields_eq (done : String) (first : Bool) (fields : List (Text.Wide × Json)) :
    writeFields done first fields = done ++ writeFields "" first fields := by
  have h := writeFields_append done "" first fields
  rwa [String.append_empty] at h

/-! ## Reading what was written -/

/-- A value is read back from its written form by a reader that goes as deep, whatever follows; the
form does not start with a blank. -/
structure IsReadBack (depth : Nat) (value : Json) : Prop where
  solid : ∀ rest, Reader.skipBlanks ((write value).toList ++ rest) = (write value).toList ++ rest
  read : ∀ nesting fuel rest, depth ≤ nesting → (write value).toList.length ≤ fuel →
    Reader.value? nesting fuel ((write value).toList ++ rest) = .ok (value, rest)

theorem length_quote_pos (text : Text.Wide) : 0 < (quote text).toList.length := by
  simp [quote]

theorem isReadBack_str (depth : Nat) (text : String) : IsReadBack depth (.str text) := by
  have hwrite : write (.str text) = quote text := String.empty_append
  refine ⟨fun rest => ?_, fun nesting fuel rest _ hfuel => ?_⟩
  · obtain ⟨chars, hquote, -⟩ := Reader.text?_quote text rest
    rw [hwrite, hquote]
    rfl
  · obtain ⟨chars, hquote, hread⟩ := Reader.text?_quote text rest
    rw [hwrite] at hfuel ⊢
    obtain ⟨fuel, rfl⟩ := Nat.exists_eq_add_of_le' (Nat.le_trans (length_quote_pos text) hfuel)
    rw [hquote, Reader.value?_text hread]

theorem toList_writeFields_cons (name : Text.Wide) (value : Json) (others : List (Text.Wide × Json))
    (rest : List Char) :
    (writeFields "" true ((name, value) :: others)).toList ++ rest = (quote name).toList ++
      ':' :: ((write value).toList ++ ((writeFields "" false others).toList ++ rest)) := by
  simp only [writeFields, if_true]
  rw [writeFields_eq, writeOnto_eq]
  simp

theorem toList_writeFields_more (field : Text.Wide × Json) (others : List (Text.Wide × Json)) :
    (writeFields "" false (field :: others)).toList =
      ',' :: (writeFields "" true (field :: others)).toList := by
  have hpush : writeFields "" false (field :: others) =
      writeFields (String.push "" ',') true (field :: others) := rfl
  rw [hpush, writeFields_eq]
  simp

/-- Fields are read back one after the other if their names have no halves and their values are read
back. -/
structure AreReadBack (depth : Nat) (fields : List (Text.Wide × Json)) : Prop where
  names : ∀ field ∈ fields, ∃ name : String, field.1 = name
  values : ∀ field ∈ fields, IsReadBack depth field.2

theorem AreReadBack.tail {depth : Nat} {field : Text.Wide × Json}
    {others : List (Text.Wide × Json)} (h : AreReadBack depth (field :: others)) :
    AreReadBack depth others :=
  ⟨fun other hother => h.names other (List.mem_cons_of_mem _ hother),
    fun other hother => h.values other (List.mem_cons_of_mem _ hother)⟩

/-- The fields of an object start with the quote of a name. -/
theorem exists_writeFields {depth : Nat} {fields : List (Text.Wide × Json)} (hne : fields ≠ [])
    (h : AreReadBack depth fields) (rest : List Char) :
    ∃ chars, (writeFields "" true fields).toList ++ rest = '"' :: chars := by
  obtain ⟨⟨_, value⟩, others, rfl⟩ := List.exists_cons_of_ne_nil hne
  obtain ⟨name, rfl⟩ := h.names _ List.mem_cons_self
  obtain ⟨chars, hquote, -⟩ := Reader.text?_quote name _
  exact ⟨chars, (toList_writeFields_cons name value others rest).trans hquote⟩

theorem fields?_written {depth nesting : Nat} (hdepth : depth ≤ nesting)
    {fields : List (Text.Wide × Json)} (hne : fields ≠ []) (h : AreReadBack depth fields)
    (before : List (Text.Wide × Json)) {fuel : Nat}
    (hfuel : (writeFields "" true fields).toList.length ≤ fuel) (rest : List Char) :
    Reader.fields? nesting fuel before ((writeFields "" true fields).toList ++ '\x7d' :: rest) =
      .ok (ofFields (before.reverse ++ fields), rest) := by
  induction fields generalizing before fuel with
  | nil => exact absurd rfl hne
  | cons field others ih =>
    obtain ⟨_, value⟩ := field
    obtain ⟨name, rfl⟩ := h.names _ List.mem_cons_self
    have hvalue : IsReadBack depth value := h.values _ List.mem_cons_self
    have hlength := congrArg List.length (toList_writeFields_cons name value others [])
    simp only [List.append_nil, List.length_append, List.length_cons] at hlength
    have hpos := length_quote_pos name
    obtain ⟨fuel, rfl⟩ : ∃ less, fuel = less + 1 := ⟨fuel - 1, by omega⟩
    rw [toList_writeFields_cons]
    generalize hnext : (writeFields "" false others).toList ++ '\x7d' :: rest = next
    obtain ⟨chars, hquote, hname⟩ :=
      Reader.text?_quote name (':' :: ((write value).toList ++ next))
    have hread : Reader.value? nesting fuel (Reader.skipBlanks ((write value).toList ++ next)) =
        .ok (value, next) := by
      rw [hvalue.solid]
      exact hvalue.read nesting fuel next hdepth (by omega)
    rw [hquote]
    cases others with
    | nil =>
      subst hnext
      rw [Reader.fields?_last hname hread, List.reverse_cons]
    | cons other others =>
      rw [toList_writeFields_more] at hlength hnext
      rw [List.length_cons] at hlength
      have hfuel : (writeFields "" true (other :: others)).toList.length ≤ fuel := by omega
      have hmore := ih (List.cons_ne_nil other others) h.tail ((name, value) :: before) hfuel
      obtain ⟨later, hlater⟩ :=
        exists_writeFields (List.cons_ne_nil other others) h.tail ('\x7d' :: rest)
      rw [List.cons_append] at hnext
      subst hnext
      rw [hlater] at hname hread hmore
      rw [Reader.fields?_more hname hread]
      refine hmore.trans ?_
      rw [List.reverse_cons, List.append_assoc]
      rfl

theorem toList_write_obj (fields : List (Text.Wide × Json)) (rest : List Char) :
    (write (.obj fields)).toList ++ rest =
      '\x7b' :: ((writeFields "" true fields).toList ++ '\x7d' :: rest) := by
  show ((writeFields (String.push "" '\x7b') true fields).push '\x7d').toList ++ rest = _
  rw [writeFields_eq]
  simp

/-- An object whose fields are read back is read back. -/
theorem isReadBack_obj {depth : Nat} {fields : List (Text.Wide × Json)} (hne : fields ≠ [])
    (h : AreReadBack depth fields) (hnames : ofFields fields = .obj fields) :
    IsReadBack (depth + 1) (.obj fields) := by
  refine ⟨fun rest => ?_, fun nesting fuel rest hdepth hfuel => ?_⟩
  · rw [toList_write_obj]
    rfl
  · have hlength := congrArg List.length (toList_write_obj fields [])
    simp only [List.append_nil, List.length_append, List.length_cons] at hlength
    obtain ⟨fuel, rfl⟩ : ∃ less, fuel = less + 1 := ⟨fuel - 1, by omega⟩
    obtain ⟨nesting, rfl⟩ :=
      Nat.exists_eq_add_of_le' (Nat.le_trans (Nat.le_add_left 1 depth) hdepth)
    have hfuel : (writeFields "" true fields).toList.length ≤ fuel := by omega
    have hfields := fields?_written (Nat.le_of_succ_le_succ hdepth) hne h [] hfuel rest
    obtain ⟨chars, hchars⟩ := exists_writeFields hne h ('\x7d' :: rest)
    rw [hchars] at hfields
    rw [toList_write_obj, hchars, Reader.value?_fields, hfields, List.reverse_nil,
      List.nil_append, hnames]

/-- A value that is read back is read from the text that it is written as. -/
theorem read_write {depth nesting : Nat} {value : Json} (h : IsReadBack depth value)
    (hdepth : depth ≤ nesting) : read nesting (write value) = .ok value := by
  have hsolid := h.solid []
  have hread := h.read nesting (2 * (write value).toList.length) [] hdepth (by omega)
  rw [List.append_nil] at hsolid hread
  unfold read
  rw [hsolid]
  dsimp only
  rw [hread]
  rfl

end Json

/-! ## An answer about a pair -/

namespace Vendor

/-- An answer that names a pair, its rate, and the time in a zone. -/
def answer (base quote rate refreshed zone : String) : Json :=
  .obj [(Entry.sectionName, .obj [("1. From_Currency Code", .str base),
    ("3. To_Currency Code", .str quote), ("5. Exchange Rate", .str rate),
    ("6. Last Refreshed", .str refreshed), ("7. Time Zone", .str zone)])]

/-- An entry whose rate and time are read comes to the sighting of them, if they make one. -/
theorem Entry.sighting_of_read {entry : Entry} {zones : Time.Zone.Database} {number : Binary64}
    {time : Time.DateTime} (hrate : entry.readRate = .ok number)
    (htime : readTimeIn zones entry.refreshed.phrase entry.zone.phrase entry.whole = .ok time) :
    entry.sighting zones =
      match Sighting.takenAt entry.base.phrase entry.quote.phrase number time with
      | .ok y => .ok y
      | .error (.invalid _) => .error (failure .invalidEntry entry.whole)
      | .error .outOfRange => .error .outOfRange := by
  unfold sighting
  rw [hrate]
  have hnext : ∀ next : Time.DateTime → Except Failure Sighting,
      (readTimeIn zones entry.refreshed.phrase entry.zone.phrase entry.whole >>= next) =
        next time :=
    fun next => congrArg (· >>= next) htime
  exact hnext _

/-- An entry with a text for a number has the number as its rate. -/
theorem readRate_str {text : String} {number : Binary64}
    (h : Number.Numeral.liberal? text = some number) {base quote refreshed zone whole : Json} :
    Entry.readRate ⟨base, quote, .str text, refreshed, zone, whole⟩ = .ok number := by
  unfold Entry.readRate
  dsimp only [Text.Wide.plain?, Option.bind_some]
  rw [h]

/-- A delivery holds an entry: its answer is an object without a notice of failure, in which the
entry has all its fields. -/
def Delivery.Holds (nesting : Nat) (delivery : Delivery) (entry : Entry) : Prop :=
  ∃ payload, delivery.payload nesting = .ok payload ∧ Entry.ofPayload payload = .ok entry

theorem Client.readDelivery_of_holds {machine : Machine} {delivery : Delivery} {entry : Entry}
    (h : delivery.Holds machine.nesting entry) :
    readDelivery machine delivery = entry.sighting machine.zones := by
  obtain ⟨payload, hpayload, hentry⟩ := h
  unfold readDelivery
  rw [hpayload]
  dsimp only
  rw [hentry]

theorem payload_answered {nesting : Nat} {body : String} {fields : List (Text.Wide × Json)}
    (hread : Json.read nesting body = .ok (.obj fields)) (hnotice : notice? (.obj fields) = none) :
    (Delivery.answered ⟨200, body⟩).payload nesting = .ok (.obj fields) := by
  have hstatus : (⟨200, body⟩ : Reply).isFailure = false := rfl
  have hpayload : (⟨200, body⟩ : Reply).payload nesting = .ok (.obj fields) := by
    unfold Reply.payload
    rw [hread]
    dsimp only
    rw [hnotice]
  unfold Delivery.payload
  dsimp only
  rw [hstatus, hpayload]
  rfl

section

variable (base quote rate refreshed zone : String)

theorem read_answer {nesting : Nat} (hnesting : 2 ≤ nesting) :
    Json.read nesting (answer base quote rate refreshed zone).write =
      .ok (answer base quote rate refreshed zone) := by
  have hentry : Json.AreReadBack 0 [("1. From_Currency Code", .str base),
      ("3. To_Currency Code", .str quote), ("5. Exchange Rate", .str rate),
      ("6. Last Refreshed", .str refreshed), ("7. Time Zone", .str zone)] := by
    constructor <;> simp [Json.isReadBack_str]
  have hwhole := Json.isReadBack_obj (List.cons_ne_nil _ _) hentry
    (by simp [Json.ofFields, Json.putField])
  have hfield : Json.AreReadBack 1 [((Entry.sectionName : Text.Wide), _)] :=
    ⟨by simp, by simpa using hwhole⟩
  exact Json.read_write (Json.isReadBack_obj (List.cons_ne_nil _ _) hfield rfl) hnesting

variable {base quote rate refreshed zone}

/-- A delivered answer about a pair holds the entry of what it says. -/
theorem holds_answer (base quote rate refreshed zone : String) {nesting : Nat}
    (hnesting : 2 ≤ nesting) :
    ∃ whole, (Delivery.answered ⟨200, (answer base quote rate refreshed zone).write⟩).Holds nesting
      ⟨.str base, .str quote, .str rate, .str refreshed, .str zone, whole⟩ := by
  have hread := read_answer base quote rate refreshed zone hnesting
  generalize (answer base quote rate refreshed zone).write = body at hread ⊢
  exact ⟨_, _, payload_answered hread rfl, rfl⟩

/-- An answer about a pair is read as the observation of what it says. -/
theorem Client.readDelivery_answer {machine : Machine} (hnesting : 2 ≤ machine.nesting)
    {number : Binary64} {time : Time.DateTime} {x : Observation}
    (hrate : Number.Numeral.liberal? rate = some number)
    (htime : ∀ shown, Entry.readTimeIn machine.zones refreshed zone shown = .ok time)
    (hx : Observation.takenAt base quote number time = .ok x) :
    readDelivery machine (.answered ⟨200, (answer base quote rate refreshed zone).write⟩) =
      .ok (x : Sighting) := by
  obtain ⟨whole, hholds⟩ := holds_answer base quote rate refreshed zone hnesting
  have hy : Sighting.takenAt base quote number time = .ok (x : Sighting) := by
    rw [Sighting.takenAt_plain, hx]
    rfl
  rw [readDelivery_of_holds hholds, Entry.sighting_of_read (readRate_str hrate) (htime whole)]
  dsimp only [Json.phrase]
  rw [hy]

end

end Vendor

end RateLedger
