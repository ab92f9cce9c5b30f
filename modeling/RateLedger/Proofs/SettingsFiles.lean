import Mathlib.Data.List.Nodup
import RateLedger.Proofs.ListTexts
import RateLedger.Proofs.PathTexts
import RateLedger.Proofs.SettingsLines

/-!
# Settings written and loaded

Settings are loaded from their own file unchanged exactly when the file can hold them
(`load_fileText_iff`). Each value is looked up under its name, for no two names are alike, and each
reader takes what the writer wrote, with three exceptions: the texts of the pairs are put into a
JSON list as they are, so none of their characters may need an escape; a whole number may not be too
long; and of not-a-number neither the sign nor the fraction is written.

So the writer is wrong where a pair holds a quote, a backslash or a control character: it writes a
file that cannot be loaded, or that holds other pairs (`load_fileText_quoted`).
-/

namespace RateLedger

open Number (Decimal.ofInt Numeral.maxWholeLength Shortest.ofBinary64)

/-- A number is usual unless it stands for no number and has a sign or another fraction than
usual. -/
def Binary64.IsUsual (x : Binary64) : Prop := x.isNaN = true → x = .nan false

namespace Settings

/-! ## What each reader takes -/

theorem readFloat_text_iff {x : Binary64} :
    readFloat (.str (Shortest.ofBinary64 x)) = .ok x ↔ x.IsUsual := by
  have hread : readFloat (.str (Shortest.ofBinary64 x)) = .ok x ↔
      Number.Numeral.plain? (Shortest.ofBinary64 x) = some x := by
    unfold readFloat
    dsimp only
    split
    · rename_i y heq
      rw [heq]
      simp
    · rename_i heq
      rw [heq]
      simp
  exact hread.trans Number.Shortest.plain?_ofBinary64_iff

theorem readInt_text_iff {text : String} {i : Int} :
    readInt (.str text) = .ok i ↔ Number.Numeral.whole text = .ok i := by
  unfold readInt
  dsimp only
  split
  all_goals
    rename_i heq
    rw [heq]
    simp

theorem readCount_text_iff {text : String} {n : Nat} :
    readCount (.str text) = .ok n ↔ readInt (.str text) = .ok (n : Int) := by
  unfold readCount
  cases readInt (.str text) with
  | error cause => simp [bind, Except.bind]
  | ok number =>
    simp only [bind, Except.bind, Except.ok.injEq]
    split
    · simp
      omega
    · rw [Except.ok.injEq]
      omega

theorem readBool_text (value : Bool) :
    readBool (.str (valueText (.bool value))) = .ok value := by
  have hyes : "True".toLower = "true" := by
    rw [← String.toList_inj]
    exact String.toList_map
  have hno : "False".toLower = "false" := by
    rw [← String.toList_inj]
    exact String.toList_map
  cases value with
  | true =>
    show readBool (.str "True") = _
    unfold readBool
    dsimp only
    rw [hyes]
    rfl
  | false =>
    show readBool (.str "False") = _
    unfold readBool
    dsimp only
    rw [hno]
    rfl

theorem read_text (written : WrittenPair) : WrittenPair.read written.text = .ok written := by
  obtain ⟨text, pair, parses⟩ := written
  unfold WrittenPair.read
  dsimp only
  split
  · rename_i found hfound
    rw [parses] at hfound
    cases hfound
    rfl
  · rename_i fault hfault
    rw [parses] at hfault
    cases hfault

theorem text_of_read {text : String} {written : WrittenPair}
    (h : WrittenPair.read text = .ok written) : written.text = text := by
  unfold WrittenPair.read at h
  split at h
  · cases h
    rfl
  · cases h

theorem mapM_read_iff {texts : List String} {polled : List WrittenPair} :
    texts.mapM WrittenPair.read = .ok polled ↔ texts = polled.map (·.text) := by
  induction texts generalizing polled with
  | nil =>
    rw [List.mapM_nil]
    cases polled <;> simp [pure, Except.pure]
  | cons text texts ih =>
    rw [List.mapM_cons]
    constructor
    · intro h
      cases hfirst : WrittenPair.read text with
      | error cause =>
        rw [hfirst] at h
        cases h
      | ok written =>
        cases hmore : texts.mapM WrittenPair.read with
        | error cause =>
          rw [hfirst, hmore] at h
          cases h
        | ok others =>
          rw [hfirst, hmore] at h
          cases h
          rw [List.map_cons, text_of_read hfirst, ih.1 hmore]
    · intro h
      cases polled with
      | nil => cases h
      | cons written others =>
        obtain ⟨rfl, hmore⟩ := List.cons.inj h
        rw [read_text, ih.2 hmore]
        rfl

theorem eq_str_of_text? {item : Json} {text : String} (h : item.text? = some text) :
    item = .str text := by
  cases item with
  | str wide =>
    cases wide with
    | plain other => exact congrArg (fun text : String => Json.str text) (Option.some.inj h)
    | broken before half behind => cases h
  | _ => cases h

theorem map_str_filterMap {items : List Json} (h : ∀ item ∈ items, item.text?.isNone = false) :
    (items.filterMap Json.text?).map (fun text : String => Json.str text) = items := by
  induction items with
  | nil => rfl
  | cons item items ih =>
    obtain ⟨hitem, hitems⟩ := List.forall_mem_cons.1 h
    obtain ⟨text, htext⟩ := Option.isSome_iff_exists.1 (Option.isNone_eq_false_iff.1 hitem)
    rw [List.filterMap_cons_some htext, List.map_cons, ih hitems, eq_str_of_text? htext]

/-- The pairs to poll are read from the list of their texts only. -/
theorem readPolled_iff {value : Json} {polled : List WrittenPair} :
    readPolled value = .ok polled ↔ value = .arr (polled.map fun written => .str written.text) := by
  constructor
  · intro h
    unfold readPolled at h
    split at h
    · rename_i items
      dsimp only at h
      split at h
      · rename_i hnone
        have htexts : ∀ item ∈ items, item.text?.isNone = false := by
          intro item hitem
          rw [List.isEmpty_iff, List.filterMap_eq_nil_iff] at hnone
          obtain ⟨i, hi, rfl⟩ := List.mem_iff_getElem.1 hitem
          have hplace := hnone (items[i], i) (by simp [List.mem_zipIdx_iff_getElem?])
          dsimp only at hplace
          split at hplace
          · cases hplace
          · rename_i hsome
            exact Bool.eq_false_of_not_eq_true hsome
        cases hread : (items.filterMap Json.text?).mapM WrittenPair.read with
        | error cause =>
          rw [hread] at h
          cases h
        | ok read =>
          rw [hread] at h
          cases h
          rw [← map_str_filterMap htexts, mapM_read_iff.1 hread, List.map_map]
          rfl
      · cases h
    · cases h
  · rintro rfl
    have htexts : (polled.map fun written => Json.str written.text).filterMap Json.text? =
        polled.map (·.text) := by
      rw [List.filterMap_map]
      exact congrFun (List.filterMap_eq_map (f := WrittenPair.text)) polled
    unfold readPolled
    dsimp only
    rw [if_pos, htexts, mapM_read_iff.2 rfl]
    · rfl
    · rw [List.isEmpty_iff, List.filterMap_eq_nil_iff]
      rintro ⟨item, i⟩ hplace
      have hitem := List.fst_mem_of_mem_zipIdx hplace
      obtain ⟨written, -, rfl⟩ := List.mem_map.1 hitem
      rfl

/-! ## Looking values up -/

theorem ofValues_eq_ok_iff {find? : String → Option Json} {settings : Settings} :
    ofValues find? = .ok settings ↔
      readText ((find? "alpha_vantage_api_key").getD (.str demoKey)) = .ok settings.apiKey ∧
      readText ((find? "alpha_vantage_base_url").getD (.str "https://www.alphavantage.co")) =
        .ok settings.baseUrl ∧
      readFloat ((find? "request_timeout").getD (.int 10)) = .ok settings.timeout ∧
      readPath ((find? "db_root").getD (.str ".oracle")) = .ok settings.root ∧
      readText ((find? "api_host").getD (.str "127.0.0.1")) = .ok settings.host ∧
      readInt ((find? "api_port").getD (.int 3518)) = .ok settings.tcpPort ∧
      readBool ((find? "run_daemon").getD (.bool true)) = .ok settings.polls ∧
      readPolled ((find? listName).getD
          (.arr (canonicalTexts.map fun text : String => .str text))) =
        .ok settings.polled ∧
      readCount ((find? "retention_minutes").getD (.int 60)) = .ok settings.retentionMinutes ∧
      readCount ((find? "max_retries").getD (.int 3)) = .ok settings.maxRetries ∧
      readFloat ((find? "batch_wait_seconds").getD (.int 30)) = .ok settings.batchWait ∧
      readText ((find? "log_level").getD (.str "INFO")) = .ok settings.logLevel := by
  have hexcept : ∀ {α : Type} {place : List Place} {result : Except Cause α} {value : α},
      Checked.ofExcept place result = .ok value ↔ result = .ok value := by
    intro α place result value
    cases result <;> simp [Checked.ofExcept]
  unfold ofValues
  dsimp only
  constructor
  · intro h
    simp only [Checked.seq_eq_ok_iff, hexcept] at h
    obtain ⟨_, _, h, hlevel, rfl⟩ := h
    obtain ⟨_, _, h, hwait, rfl⟩ := h
    obtain ⟨_, _, h, hretries, rfl⟩ := h
    obtain ⟨_, _, h, hminutes, rfl⟩ := h
    obtain ⟨_, _, h, hpolled, rfl⟩ := h
    obtain ⟨_, _, h, hpolls, rfl⟩ := h
    obtain ⟨_, _, h, hport, rfl⟩ := h
    obtain ⟨_, _, h, hhost, rfl⟩ := h
    obtain ⟨_, _, h, hroot, rfl⟩ := h
    obtain ⟨_, _, h, htimeout, rfl⟩ := h
    obtain ⟨_, _, h, hurl, rfl⟩ := h
    obtain ⟨_, _, h, hkey, rfl⟩ := h
    cases h
    exact ⟨hkey, hurl, htimeout, hroot, hhost, hport, hpolls, hpolled, hminutes, hretries, hwait,
      hlevel⟩
  · rintro ⟨hkey, hurl, htimeout, hroot, hhost, hport, hpolls, hpolled, hminutes, hretries, hwait,
      hlevel⟩
    rw [hkey, hurl, htimeout, hroot, hhost, hport, hpolls, hpolled, hminutes, hretries, hwait,
      hlevel]
    rfl

/-- The value found for a setting, where the list is read from its texts already. -/
def found (given : List (String × Json)) (environment written : List (String × Option String))
    (list : Option Json) (name : String) : Option Json :=
  (given.lookup name).or <|
    if name = listName then list
    else ((textOf? environment name).or (textOf? written name)).map fun text : String => .str text

theorem load_eq_ok_iff {given : List (String × Json)} {environment : List (String × String)}
    {text : String} {settings : Settings} :
    load given environment (some text) = .ok settings ↔ ∃ fromEnvironment fromFile,
      valueOf? (environment.map fun entry => (entry.1, some entry.2)) listName =
        .ok fromEnvironment ∧
      valueOf? (assignments text) listName = .ok fromFile ∧
      ofValues (found given (environment.map fun entry => (entry.1, some entry.2))
        (assignments text) (fromEnvironment.or fromFile)) = .ok settings := by
  unfold load
  simp only [Option.map_some, Option.getD_some]
  cases valueOf? (environment.map fun entry => (entry.1, some entry.2)) listName with
  | error fault => simp [bind, Except.bind]
  | ok fromEnvironment =>
    cases valueOf? (assignments text) listName with
    | error fault => simp [bind, Except.bind]
    | ok fromFile =>
      have hfound : (fun name => (given.lookup name).or <|
          if name = listName then fromEnvironment.or fromFile
          else ((textOf? (environment.map fun entry => (entry.1, some entry.2)) name).or
            (textOf? (assignments text) name)).map fun text : String => .str text) =
          found given (environment.map fun entry => (entry.1, some entry.2)) (assignments text)
            (fromEnvironment.or fromFile) := rfl
      simp only [bind, Except.bind, Except.ok.injEq, exists_and_left, exists_eq_left']
      rw [hfound]
      generalize ofValues (found given (environment.map fun entry => (entry.1, some entry.2))
        (assignments text) (fromEnvironment.or fromFile)) = checked
      cases checked with
      | ok settings => simp [pure, Except.pure]
      | bad problems => simp [throw, throwThe, MonadExceptOf.throw]

/-- An environment without the variables of the settings. -/
def IsUnset (environment : List (String × String)) : Prop :=
  ∀ entry ∈ environment, ∀ name ∈ names, smallName entry.1 ≠ smallName (variableName name)

/-- In small letters, the variable of a setting is its name behind a common start. -/
theorem smallName_variableName {name : String} (h : name ∈ names) :
    (smallName (variableName name)).toList = "oracle_".toList ++ name.toList := by
  have hall : (names.all fun name => (('O' :: ("RACLE_".toList ++ name.toList.map Char.toUpper)).map
      fun c => if c.toNat = 0x212a then 'k' else c.toLower) == "oracle_".toList ++ name.toList) =
        true := rfl
  have hname := beq_iff_eq.1 (List.all_eq_true.1 hall name h)
  unfold smallName
  rw [String.toList_ofList, toList_variableName]
  exact hname

theorem eq_of_smallName_eq {name other : String} (hname : name ∈ names) (hother : other ∈ names)
    (h : smallName (variableName name) = smallName (variableName other)) : name = other := by
  have hchars := congrArg String.toList h
  rw [smallName_variableName hname, smallName_variableName hother] at hchars
  exact String.toList_inj.1 (List.append_cancel_left hchars)

theorem textOf?_unset {environment : List (String × String)} (h : IsUnset environment)
    {name : String} (hname : name ∈ names) :
    textOf? (environment.map fun entry => (entry.1, some entry.2)) name = none := by
  have hnone : ((environment.map fun entry => (entry.1, some entry.2)).reverse.find? fun entry =>
      smallName entry.1 == smallName (variableName name)) = none := by
    rw [List.find?_eq_none]
    intro entry hentry
    obtain ⟨found, hfound, rfl⟩ := List.mem_map.1 (List.mem_reverse.1 hentry)
    rw [beq_iff_eq]
    exact h found hfound name hname
  unfold textOf?
  rw [hnone]
  rfl

section

variable {settings : Settings} {name : String} {value : Json}

theorem mem_names_of_mem_entries (h : (name, value) ∈ settings.entries) : name ∈ names := by
  rw [← settings.map_fst_entries]
  exact List.mem_map_of_mem h

theorem eq_of_mem_entries {other : Json} (h : (name, value) ∈ settings.entries)
    (hother : (name, other) ∈ settings.entries) : other = value := by
  have hnames : (settings.entries.map (·.1)).Nodup := by
    rw [map_fst_entries]
    decide
  have heq := List.inj_on_of_nodup_map hnames hother h rfl
  exact (Prod.mk.inj heq).2

/-- A value is found under its name. -/
theorem textOf?_assigned (h : (name, value) ∈ settings.entries) :
    textOf? settings.assigned name = some (valueText value) := by
  have hmem : (variableName name, some (valueText value)) ∈ settings.assigned :=
    List.mem_map_of_mem h
  unfold textOf?
  cases hfound : settings.assigned.reverse.find? fun entry =>
      smallName entry.1 == smallName (variableName name) with
  | none =>
    have hnot := List.find?_eq_none.1 hfound _ (List.mem_reverse.2 hmem)
    exact absurd (beq_self_eq_true _) hnot
  | some entry =>
    have hsame := List.find?_some hfound
    rw [beq_iff_eq] at hsame
    have hentry := List.mem_reverse.1 (List.mem_of_find?_eq_some hfound)
    obtain ⟨⟨other, found⟩, hother, rfl⟩ := List.mem_map.1 hentry
    obtain rfl := eq_of_smallName_eq (mem_names_of_mem_entries hother)
      (mem_names_of_mem_entries h) hsame
    rw [eq_of_mem_entries h hother]
    rfl

end

/-! ## Loading what was written -/

theorem toList_listText (settings : Settings) :
    settings.listText.toList = '[' :: Json.listed [] (settings.polled.map (·.text)) := by
  have hcomma : ",".toList = [','] := rfl
  have hopen : "[".toList = ['['] := rfl
  have hclose : "]".toList = [']'] := rfl
  have hitems : ∀ texts : List String, [','].intercalate ((texts.map fun text =>
      "\"" ++ text ++ "\"").map String.toList) ++ [']'] = Json.listed [] texts := by
    intro texts
    induction texts with
    | nil => rfl
    | cons text others ih =>
      cases others with
      | nil => simp [List.intercalate_singleton, Json.listed]
      | cons other others =>
        rw [List.map_cons, List.map_cons] at ih ⊢
        rw [List.map_cons, List.map_cons, List.intercalate_cons_cons, List.append_assoc, ih]
        simp [Json.listed]
  unfold listText valueText
  rw [String.toList_append, String.toList_append, String.toList_intercalate, hcomma, hopen, hclose,
    ← hitems]
  simp only [List.map_map, List.append_assoc]
  rfl

/-- The settings that a settings file can hold. -/
structure IsWritable (settings : Settings) : Prop where
  unescaped : ∀ written ∈ settings.polled, Json.IsUnescaped written.text
  timeout : settings.timeout.IsUsual
  tcpPort : (Decimal.ofInt settings.tcpPort).utf8ByteSize ≤ Numeral.maxWholeLength
  retentionMinutes : (Decimal.ofInt settings.retentionMinutes).utf8ByteSize ≤ Numeral.maxWholeLength
  maxRetries : (Decimal.ofInt settings.maxRetries).utf8ByteSize ≤ Numeral.maxWholeLength
  batchWait : settings.batchWait.IsUsual

section

variable {settings : Settings} {environment : List (String × String)}

theorem read?_listText_iff :
    Json.read? settings.listText =
        some (.arr (settings.polled.map fun written => .str written.text)) ↔
      ∀ written ∈ settings.polled, Json.IsUnescaped written.text := by
  have hiff := Json.read?_listed_iff settings.toList_listText
  rw [Json.ofTexts, List.map_map, List.forall_mem_map] at hiff
  exact hiff

/-- The list is read as one, if it is read at all. -/
theorem exists_items_of_listText {value : Json} (h : Json.read? settings.listText = some value) :
    ∃ items, value = .arr items := by
  have hbracket : Json.Reader.skipBlanks ('[' :: Json.listed [] (settings.polled.map (·.text))) =
      '[' :: Json.listed [] (settings.polled.map (·.text)) := rfl
  unfold Json.read? Json.read at h
  rw [toList_listText, hbracket] at h
  dsimp only at h
  split at h
  · rename_i found rest hfound
    split at h
    · obtain rfl := Option.some.inj h
      exact Json.Reader.exists_items_of_value? hfound
    · cases h
  · cases h

/-- What the readers make of values as a settings file has them. -/
theorem ofValues_written_iff {find? : String → Option Json} {list : Json}
    (hfind : ∀ {name : String} {value : Json}, (name, value) ∈ settings.entries →
      name ≠ listName → find? name = some (.str (valueText value)))
    (hlist : find? listName = some list) :
    ofValues find? = .ok settings ↔
      list = .arr (settings.polled.map fun written => .str written.text) ∧
      settings.timeout.IsUsual ∧
      (Decimal.ofInt settings.tcpPort).utf8ByteSize ≤ Numeral.maxWholeLength ∧
      (Decimal.ofInt settings.retentionMinutes).utf8ByteSize ≤ Numeral.maxWholeLength ∧
      (Decimal.ofInt settings.maxRetries).utf8ByteSize ≤ Numeral.maxWholeLength ∧
      settings.batchWait.IsUsual := by
  have hcell : ∀ name value usual, (name, value) ∈ settings.entries → name ≠ listName →
      (find? name).getD usual = .str (valueText value) := by
    intro name value usual hentry hname
    rw [hfind hentry hname]
    rfl
  have hmem : ∀ entry ∈ settings.entries, entry ∈ settings.entries := fun _ => id
  simp only [entries, List.forall_mem_cons] at hmem
  obtain ⟨hkey, hurl, htimeout, hroot, hhost, hport, hpolls, -, hminutes, hretries, hwait, hlevel,
    -⟩ := hmem
  have hpath : readPath (.str settings.root.text) = .ok settings.root :=
    congrArg Except.ok (Files.Path.ofText_text settings.root)
  have hint : ∀ i, readInt (.str (valueText (.int i))) = .ok i ↔
      (Decimal.ofInt i).utf8ByteSize ≤ Numeral.maxWholeLength :=
    fun _ => readInt_text_iff.trans Number.Numeral.whole_ofInt_iff
  rw [ofValues_eq_ok_iff, hlist, hcell _ _ _ hkey (by decide), hcell _ _ _ hurl (by decide),
    hcell _ _ _ htimeout (by decide), hcell _ _ _ hroot (by decide), hcell _ _ _ hhost (by decide),
    hcell _ _ _ hport (by decide), hcell _ _ _ hpolls (by decide),
    hcell _ _ _ hminutes (by decide), hcell _ _ _ hretries (by decide),
    hcell _ _ _ hwait (by decide), hcell _ _ _ hlevel (by decide)]
  constructor
  · rintro ⟨-, -, htimeout, -, -, hport, -, hpolled, hminutes, hretries, hwait, -⟩
    exact ⟨readPolled_iff.1 hpolled, readFloat_text_iff.1 htimeout, (hint _).1 hport,
      (hint _).1 (readCount_text_iff.1 hminutes), (hint _).1 (readCount_text_iff.1 hretries),
      readFloat_text_iff.1 hwait⟩
  · rintro ⟨hpolled, htimeout, hport, hminutes, hretries, hwait⟩
    exact ⟨rfl, rfl, readFloat_text_iff.2 htimeout, hpath, rfl, (hint _).2 hport,
      readBool_text settings.polls, readPolled_iff.2 hpolled,
      readCount_text_iff.2 ((hint _).2 hminutes), readCount_text_iff.2 ((hint _).2 hretries),
      readFloat_text_iff.2 hwait, rfl⟩

/-- Settings are loaded from their own file unchanged exactly when the file can hold them: no
environment variable stands in front of the file, and the file is read line by line. -/
theorem load_fileText_iff (hunset : IsUnset environment)
    (hlines : assignments settings.fileText = settings.assigned) :
    load [] environment (some settings.fileText) = .ok settings ↔ settings.IsWritable := by
  have hlistEntry : (listName, Json.arr (settings.polled.map fun written => .str written.text)) ∈
      settings.entries := by simp [entries, listName]
  have hlistText : textOf? settings.assigned listName = some settings.listText :=
    textOf?_assigned hlistEntry
  have hunread : valueOf? (environment.map fun entry => (entry.1, some entry.2)) listName =
      .ok none := by
    unfold valueOf?
    rw [textOf?_unset hunset (by decide)]
  have hlist : ∀ {value}, valueOf? settings.assigned listName = .ok value ↔
      ∃ items, Json.read? settings.listText = some (.arr items) ∧ value = some (.arr items) := by
    intro value
    unfold valueOf?
    rw [hlistText]
    dsimp only
    rw [if_pos rfl]
    cases hread : Json.read? settings.listText with
    | none => simp
    | some value =>
      obtain ⟨items, rfl⟩ := exists_items_of_listText hread
      simp [eq_comm]
  have hfound : ∀ items {name value}, (name, value) ∈ settings.entries → name ≠ listName →
      found [] (environment.map fun entry => (entry.1, some entry.2)) settings.assigned
        (some (.arr items)) name = some (.str (valueText value)) := by
    intro items name value hentry hname
    unfold found
    rw [if_neg hname, textOf?_unset hunset (mem_names_of_mem_entries hentry),
      textOf?_assigned hentry]
    rfl
  rw [load_eq_ok_iff, hlines, hunread]
  constructor
  · rintro ⟨fromEnvironment, fromFile, henvironment, hfile, hvalues⟩
    cases henvironment
    obtain ⟨items, hread, rfl⟩ := hlist.1 hfile
    obtain ⟨hitems, htimeout, hport, hminutes, hretries, hwait⟩ :=
      (ofValues_written_iff (hfound items) rfl).1 hvalues
    rw [hitems] at hread
    exact ⟨read?_listText_iff.1 hread, htimeout, hport, hminutes, hretries, hwait⟩
  · intro h
    refine ⟨none, _, rfl, hlist.2 ⟨_, read?_listText_iff.2 h.unescaped, rfl⟩, ?_⟩
    exact (ofValues_written_iff (hfound _) rfl).2 ⟨rfl, h.timeout, h.tcpPort, h.retentionMinutes,
      h.maxRetries, h.batchWait⟩

end

/-- Settings that poll one pair. -/
def forPair (written : WrittenPair) : Settings where
  apiKey := demoKey
  baseUrl := "https://www.alphavantage.co"
  timeout := ⟨0x4024000000000000⟩
  root := .ofText "data/oracle"
  host := "127.0.0.1"
  tcpPort := 4000
  polls := true
  polled := [written]
  retentionMinutes := 60
  maxRetries := 3
  batchWait := ⟨0x403E000000000000⟩
  logLevel := "INFO"

/-- A pair whose codes are letters. -/
def plainPair : WrittenPair := ⟨"eur/usd", ⟨"EUR", "USD"⟩, by decide⟩

/-- A pair that has a quote in a code. -/
def quotedPair : WrittenPair := ⟨"EUR/US\"D", ⟨"EUR", "US\"D"⟩, by decide⟩

theorem assignments_forPair {written : WrittenPair}
    (h : IsVerbatim (forPair written).listText.toList) :
    assignments (forPair written).fileText = (forPair written).assigned := by
  have hkey : IsVerbatim demoKey.toList := by decide
  have hurl : IsVerbatim "https://www.alphavantage.co".toList := by decide
  have hroot : IsVerbatim (Files.Path.ofText "data/oracle").text.toList := by decide
  have hhost : IsVerbatim "127.0.0.1".toList := by decide
  have hlevel : IsVerbatim "INFO".toList := by decide
  apply assignments_fileText
  simp only [freeTexts, List.forall_mem_cons]
  exact ⟨hkey, hurl, hroot, hhost, h, hlevel, by simp⟩

theorem isUnset_path : IsUnset [("PATH", "/bin")] := by
  intro entry hentry name hname heq
  rw [List.mem_singleton.1 hentry] at heq
  have hchars := congrArg String.toList heq
  rw [smallName_variableName hname] at hchars
  have hfirst : 'p' = 'o' := (List.cons.inj hchars).1
  exact absurd hfirst (by decide)

theorem isWritable_plainPair : (forPair plainPair).IsWritable := by
  refine ⟨?_, ?_, by decide, by decide, by decide, ?_⟩
  · intro written hwritten
    rw [List.mem_singleton.1 hwritten]
    exact List.all_eq_true.1 rfl
  · exact fun hnan => absurd hnan (by decide)
  · exact fun hnan => absurd hnan (by decide)

/-- The settings with a plain pair are loaded from their file, and those with a quote in the pair
are not. -/
theorem load_fileText_quoted :
    load [] [("PATH", "/bin")] (some (forPair plainPair).fileText) = .ok (forPair plainPair) ∧
      load [] [("PATH", "/bin")] (some (forPair quotedPair).fileText) ≠
        .ok (forPair quotedPair) := by
  constructor
  · exact (load_fileText_iff isUnset_path (assignments_forPair (by decide))).2
      isWritable_plainPair
  · intro hload
    have hwritable := (load_fileText_iff isUnset_path
      (assignments_forPair (by decide))).1 hload
    have hquote := hwritable.unescaped quotedPair (List.mem_singleton.2 rfl) '"' (by decide)
    cases hquote

end Settings

end RateLedger
