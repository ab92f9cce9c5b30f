import RateLedger.Proofs.Edits
import RateLedger.Proofs.Histories

/-!
# How a table holds a history

A table holds a history of ordinary observations if every observation has its entry, under the key
of its pair and second, if the identity row of every pair repeats the entry of its newest
observation, and if there are no other rows. Such a table is determined by the history. Saving and
deleting keep it so, whatever was saved before: this is where the repairs of the identity row are
shown to be the right ones (`Holds.saved`, `Holds.deleted`). A scan of such a table lists the
history in the order of pairs and seconds (`Holds.lists`).
-/

namespace RateLedger

theorem Ascending.getLast?_eq_some_iff {rows : List Row} (h : Ascending rows) {row : Row} :
    rows.getLast? = some row ↔ row ∈ rows ∧ ∀ other ∈ rows, ¬row.1 < other.1 :=
  getLast?_eq_some_iff_of_pairwise
    (fun _ _ hlt hgt => List.lt_irrefl _ (List.lt_trans hlt hgt)) h

namespace Table

theorem mem_range {table : Table} {low : Bytes} {high : Option Bytes} {row : Row} :
    row ∈ table.range low high ↔ row ∈ table.rows ∧ inRange low high row.1 = true :=
  List.mem_filter

theorem isEntryOf_iff {pairId : String} {row : Row} :
    isEntryOf pairId row = true ↔
      ∃ x, Record.decode row.2 = .ok x ∧ x.pairId = pairId ∧
        row.1 = Key.timed pairId x.seconds := by
  unfold isEntryOf
  cases Record.decode row.2 with
  | error fault => simp
  | ok x => simp

/-- A table has the entries of a history, and identity rows of any content. -/
structure Enters (table : Table) (h : History) : Prop where
  ordinary : h.IsOrdinary
  timed : ∀ pairId (seconds : Nat), seconds ≤ Time.maxSecond →
    table.lookup (Key.timed pairId seconds) = (h.find? pairId seconds).map Observation.toRecord
  keys : ∀ key value, table.lookup key = some value →
    (∃ pairId, ∃ seconds : Nat, seconds ≤ Time.maxSecond ∧ key = Key.timed pairId seconds) ∨
      ∃ pairId, IsPlain pairId ∧ key = Key.identity pairId

/-- The identity row of a pair repeats the newest observation of the pair, if there is one. -/
def Repeats (table : Table) (h : History) (pairId : String) : Prop :=
  ∀ value, table.lookup (Key.identity pairId) = some value ↔
    ∃ x, h.IsNewest x ∧ x.pairId = pairId ∧ x.toRecord = value

/-- A table holds a history: it has its entries, and the identity rows repeat the newest ones. -/
structure Holds (table : Table) (h : History) : Prop extends table.Enters h where
  identity : ∀ pairId, IsPlain pairId → table.Repeats h pairId

theorem holds_empty : Table.empty.Holds .empty where
  ordinary := nofun
  timed _ _ _ := rfl
  keys := nofun
  identity _ _ _ := ⟨nofun, fun ⟨_, hx, _⟩ => nomatch hx.has⟩

section

variable {table : Table} {h : History} {x : Observation} {pairId : String} {seconds : Int}

theorem Enters.lookup_timed (henters : table.Enters h) (hsecond : x.seconds ≤ Time.maxSecond)
    {value : Bytes} :
    table.lookup (Key.timed pairId x.seconds) = some value ↔
      ∃ y, h.Has y ∧ y.pairId = pairId ∧ y.seconds = x.seconds ∧ y.toRecord = value := by
  rw [henters.timed pairId x.seconds hsecond, Option.map_eq_some_iff]
  constructor
  · rintro ⟨y, hy, rfl⟩
    obtain ⟨hhas, hpair, hsame⟩ := History.find?_eq_some_iff.1 hy
    exact ⟨y, hhas, hpair, hsame, rfl⟩
  · rintro ⟨y, hhas, hpair, hsame, rfl⟩
    exact ⟨y, History.find?_eq_some_iff.2 ⟨hhas, hpair, hsame⟩, rfl⟩

/-- What a table shows of an observation is its entry. -/
theorem Enters.mem_and_shown (henters : table.Enters h) {row : Row} :
    (row ∈ table.rows ∧ Record.decode row.2 = .ok x ∧ row.1 = Key.ofObservation x) ↔
      h.Has x ∧ row = (Key.ofObservation x, x.toRecord) := by
  obtain ⟨key, value⟩ := row
  dsimp only
  rw [mem_rows_iff_lookup]
  constructor
  · rintro ⟨hlookup, hdecode, rfl⟩
    obtain ⟨y, hy, hpair, hsecond, rfl⟩ := (henters.lookup_timed x.inTime).1 hlookup
    rw [Record.decode_toRecord (henters.ordinary y hy).readable] at hdecode
    cases hdecode
    exact ⟨hy, rfl⟩
  · rintro ⟨hx, heq⟩
    cases heq
    refine ⟨?_, Record.decode_toRecord (henters.ordinary x hx).readable, rfl⟩
    exact (henters.lookup_timed x.inTime).2 ⟨x, hx, rfl, rfl, rfl⟩

theorem Enters.mem_entriesOf_iff (henters : table.Enters h) {row : Row} :
    row ∈ table.entriesOf pairId ↔
      ∃ x, h.Has x ∧ x.pairId = pairId ∧ row = (Key.ofObservation x, x.toRecord) := by
  unfold entriesOf
  rw [List.mem_filter, mem_range, isEntryOf_iff]
  constructor
  · rintro ⟨⟨hrow, -⟩, x, hdecode, rfl, hkey⟩
    obtain ⟨hx, heq⟩ := henters.mem_and_shown.1 ⟨hrow, hdecode, hkey⟩
    exact ⟨x, hx, rfl, heq⟩
  · rintro ⟨x, hx, rfl, heq⟩
    obtain ⟨hrow, hdecode, hkey⟩ := henters.mem_and_shown.2 ⟨hx, heq⟩
    refine ⟨⟨hrow, ?_⟩, x, hdecode, rfl, hkey⟩
    rw [hkey]
    exact Key.inRange_upperBound _ _

/-- Within a pair the keys are ordered as the seconds. -/
theorem Enters.key_lt_iff {y : Observation} (henters : table.Enters h) (hx : h.Has x)
    (hpair : y.pairId = x.pairId) :
    Key.ofObservation x < Key.ofObservation y ↔ x.seconds < y.seconds := by
  have hplain := (henters.ordinary x hx).pairId
  unfold Key.ofObservation
  rw [hpair, Key.timed_lt_timed_iff hplain hplain x.inTime y.inTime]
  constructor
  · rintro (hlt | ⟨-, hlt⟩)
    · exact absurd hlt (List.lt_irrefl _)
    · exact hlt
  · intro hlt
    exact .inr ⟨rfl, hlt⟩

/-- The last entry of a pair in the order of the keys is the one of its newest observation. -/
theorem Enters.lastOf?_eq_some_iff (henters : table.Enters h) {record : Bytes} :
    table.lastOf? pairId = some record ↔
      ∃ x, h.IsNewest x ∧ x.pairId = pairId ∧ x.toRecord = record := by
  have hasc : Ascending (table.entriesOf pairId) := (table.ascending.filter _).filter _
  unfold lastOf?
  rw [Option.map_eq_some_iff]
  constructor
  · rintro ⟨row, hlast, rfl⟩
    obtain ⟨hrow, hmax⟩ := hasc.getLast?_eq_some_iff.1 hlast
    obtain ⟨x, hx, rfl, rfl⟩ := henters.mem_entriesOf_iff.1 hrow
    refine ⟨x, ⟨hx, fun y hy hpair => Nat.le_of_not_lt fun hlt => ?_⟩, rfl, rfl⟩
    apply hmax _ (henters.mem_entriesOf_iff.2 ⟨y, hy, hpair, rfl⟩)
    exact (henters.key_lt_iff hx hpair).2 hlt
  · rintro ⟨x, hx, rfl, rfl⟩
    refine ⟨(Key.ofObservation x, x.toRecord), hasc.getLast?_eq_some_iff.2 ⟨?_, ?_⟩, rfl⟩
    · exact henters.mem_entriesOf_iff.2 ⟨x, hx.has, rfl, rfl⟩
    · intro other hother hlt
      obtain ⟨y, hy, hpair, rfl⟩ := henters.mem_entriesOf_iff.1 hother
      exact Nat.not_lt_of_le (hx.le y hy hpair) ((henters.key_lt_iff hx.has hpair).1 hlt)

theorem Holds.newest?_eq_some_iff (hholds : table.Holds h) (hp : IsPlain pairId) :
    table.newest? pairId = some x ↔ h.IsNewest x ∧ x.pairId = pairId := by
  unfold newest?
  rw [Option.bind_eq_some_iff]
  constructor
  · rintro ⟨value, hlookup, hdecode⟩
    obtain ⟨y, hy, hpair, rfl⟩ := (hholds.identity pairId hp value).1 hlookup
    rw [Record.decode_toRecord (hholds.ordinary y hy.has).readable] at hdecode
    cases hdecode
    exact ⟨hy, hpair⟩
  · rintro ⟨hx, hpair⟩
    refine ⟨x.toRecord, (hholds.identity pairId hp _).2 ⟨x, hx, hpair, rfl⟩, ?_⟩
    rw [Record.decode_toRecord (hholds.ordinary x hx.has).readable]
    rfl

/-! ## Edits -/

theorem Enters.insert_timed (henters : table.Enters h) (hx : x.IsOrdinary) :
    (table.insert (Key.ofObservation x) x.toRecord).Enters (h.saved x) where
  ordinary := henters.ordinary.saved hx
  timed pair second hsecond := by
    have hkey : Key.timed pair second = Key.ofObservation x ↔
        pair = x.pairId ∧ second = x.seconds := by
      rw [Key.ofObservation, Key.timed_inj (Bytes.isModerate_second hsecond).fits
        (Bytes.isModerate_second x.inTime).fits, Nat.cast_inj]
    rw [lookup_insert, henters.timed pair second hsecond]
    unfold History.saved
    dsimp only
    by_cases hplace : pair = x.pairId ∧ second = x.seconds
    · rw [if_pos (hkey.2 hplace), if_pos hplace]
      rfl
    · rw [if_neg fun heq => hplace (hkey.1 heq), if_neg hplace]
  keys key value hlookup := by
    rw [lookup_insert] at hlookup
    split at hlookup
    · rename_i heq
      exact .inl ⟨x.pairId, x.seconds, x.inTime, heq⟩
    · exact henters.keys key value hlookup

theorem Enters.erase_timed (henters : table.Enters h) (hsecond : Bytes.IsModerate seconds) :
    (table.erase (Key.timed pairId seconds)).Enters (h.deleted pairId seconds) where
  ordinary := henters.ordinary.deleted pairId seconds
  timed pair second hle := by
    have hkey : Key.timed pair second = Key.timed pairId seconds ↔
        pair = pairId ∧ (second : Int) = seconds :=
      Key.timed_inj (Bytes.isModerate_second hle).fits hsecond.fits
    rw [lookup_erase, henters.timed pair second hle]
    unfold History.deleted
    dsimp only
    by_cases hplace : pair = pairId ∧ (second : Int) = seconds
    · rw [if_pos (hkey.2 hplace), if_pos hplace]
      rfl
    · rw [if_neg fun heq => hplace (hkey.1 heq), if_neg hplace]
  keys key value hlookup := by
    rw [lookup_erase] at hlookup
    split at hlookup
    · cases hlookup
    · exact henters.keys key value hlookup

theorem Enters.insert_identity (henters : table.Enters h) (hp : IsPlain pairId) (value : Bytes) :
    (table.insert (Key.identity pairId) value).Enters h where
  ordinary := henters.ordinary
  timed pair second hle := by
    rw [lookup_insert, if_neg (Key.timed_ne_identity (Bytes.isModerate_second hle) hp),
      henters.timed pair second hle]
  keys key other hlookup := by
    rw [lookup_insert] at hlookup
    split at hlookup
    · rename_i heq
      exact .inr ⟨pairId, hp, heq⟩
    · exact henters.keys key other hlookup

theorem Enters.erase_identity (henters : table.Enters h) (hp : IsPlain pairId) :
    (table.erase (Key.identity pairId)).Enters h where
  ordinary := henters.ordinary
  timed pair second hle := by
    rw [lookup_erase, if_neg (Key.timed_ne_identity (Bytes.isModerate_second hle) hp),
      henters.timed pair second hle]
  keys key other hlookup := by
    rw [lookup_erase] at hlookup
    split at hlookup
    · cases hlookup
    · exact henters.keys key other hlookup

theorem newest?_congr {other : Table}
    (hlookup : other.lookup (Key.identity pairId) = table.lookup (Key.identity pairId)) :
    other.newest? pairId = table.newest? pairId := by
  unfold newest?
  rw [hlookup]

theorem lookup_insert_timed (table : Table) (hsecond : Bytes.IsModerate seconds)
    (hp : IsPlain pairId) (pair : String) (value : Bytes) :
    (table.insert (Key.timed pair seconds) value).lookup (Key.identity pairId) =
      table.lookup (Key.identity pairId) := by
  rw [lookup_insert, if_neg (Key.timed_ne_identity hsecond hp).symm]

theorem lookup_erase_timed (table : Table) (hsecond : Bytes.IsModerate seconds)
    (hp : IsPlain pairId) (pair : String) :
    (table.erase (Key.timed pair seconds)).lookup (Key.identity pairId) =
      table.lookup (Key.identity pairId) := by
  rw [lookup_erase, if_neg (Key.timed_ne_identity hsecond hp).symm]

theorem lookup_insert_identity (table : Table) {pair : String} (hne : pair ≠ pairId)
    (value : Bytes) :
    (table.insert (Key.identity pairId) value).lookup (Key.identity pair) =
      table.lookup (Key.identity pair) := by
  rw [lookup_insert, if_neg fun heq => hne (Key.identity_inj.1 heq)]

theorem lookup_erase_identity (table : Table) {pair : String} (hne : pair ≠ pairId) :
    (table.erase (Key.identity pairId)).lookup (Key.identity pair) =
      table.lookup (Key.identity pair) := by
  rw [lookup_erase, if_neg fun heq => hne (Key.identity_inj.1 heq)]

/-- Where neither the identity row nor the newest observation changes, the one repeats the other. -/
theorem Repeats.congr {other : Table} {after : History} (hrepeats : table.Repeats h pairId)
    (hlookup : other.lookup (Key.identity pairId) = table.lookup (Key.identity pairId))
    (hnewest : ∀ y, y.pairId = pairId → (after.IsNewest y ↔ h.IsNewest y)) :
    other.Repeats after pairId := by
  intro value
  rw [hlookup, hrepeats value]
  refine exists_congr fun y => ⟨?_, ?_⟩
  · rintro ⟨hy, hpair, hvalue⟩
    exact ⟨(hnewest y hpair).2 hy, hpair, hvalue⟩
  · rintro ⟨hy, hpair, hvalue⟩
    exact ⟨(hnewest y hpair).1 hy, hpair, hvalue⟩

theorem repeats_insert (hx : h.IsNewest x) :
    (table.insert (Key.identity x.pairId) x.toRecord).Repeats h x.pairId := by
  intro value
  rw [lookup_insert, if_pos rfl, Option.some.injEq]
  constructor
  · rintro rfl
    exact ⟨x, hx, rfl, rfl⟩
  · rintro ⟨y, hy, hpair, rfl⟩
    rw [hy.eq hx hpair]

theorem repeats_erase (hnone : ∀ y, h.IsNewest y → y.pairId ≠ pairId) :
    (table.erase (Key.identity pairId)).Repeats h pairId := by
  intro value
  rw [lookup_erase, if_pos rfl]
  exact ⟨nofun, fun ⟨y, hy, hpair, _⟩ => absurd hpair (hnone y hy)⟩

/-- What changes for one pair only needs to be looked at for this pair. -/
theorem Holds.of_pair {other : Table} {after : History} (hholds : table.Holds h)
    (henters : other.Enters after)
    (hlookup : ∀ pair, IsPlain pair → pair ≠ pairId →
      other.lookup (Key.identity pair) = table.lookup (Key.identity pair))
    (hnewest : ∀ y, y.pairId ≠ pairId → (after.IsNewest y ↔ h.IsNewest y))
    (hown : other.Repeats after pairId) : other.Holds after := by
  refine ⟨henters, fun pair hpair => ?_⟩
  by_cases hsame : pair = pairId
  · rw [hsame]
    exact hown
  · apply (hholds.identity pair hpair).congr (hlookup pair hpair hsame)
    intro y hy
    exact hnewest y (hy ▸ hsame)

/-- Saving keeps the identity row the one of the newest observation. -/
theorem Holds.saved (hholds : table.Holds h) (hx : x.IsOrdinary) :
    (table.saved x).Holds (h.saved x) := by
  have hsecond := Bytes.isModerate_second x.inTime
  have hentered : (table.insert (Key.ofObservation x) x.toRecord).Enters (h.saved x) :=
    hholds.insert_timed hx
  have hlookup : ∀ pair, IsPlain pair →
      (table.insert (Key.ofObservation x) x.toRecord).lookup (Key.identity pair) =
        table.lookup (Key.identity pair) :=
    fun _ hpair => lookup_insert_timed table hsecond hpair x.pairId x.toRecord
  have hother : ∀ y : Observation, y.pairId ≠ x.pairId →
      ((h.saved x).IsNewest y ↔ h.IsNewest y) := fun _ hy => History.isNewest_saved_of_ne hy
  unfold Table.saved
  dsimp only
  rw [newest?_congr (hlookup x.pairId hx.pairId)]
  by_cases hall : (table.newest? x.pairId).all (·.seconds ≤ x.seconds) = true
  · -- Nothing newer is there, so the new record goes under the identity key too.
    rw [if_pos hall]
    have hnew : (h.saved x).IsNewest x := by
      apply History.isNewest_saved_of_le
      intro z hz hpair
      have hfound := (hholds.newest?_eq_some_iff hx.pairId).2 ⟨hz, hpair⟩
      simpa [hfound] using hall
    apply hholds.of_pair (hentered.insert_identity hx.pairId _) _ hother (repeats_insert hnew)
    intro pair hpair hne
    exact (lookup_insert_identity _ hne _).trans (hlookup pair hpair)
  · -- Something newer is there, and stays the newest.
    rw [if_neg hall]
    obtain ⟨z, hfound, hlt⟩ : ∃ z, table.newest? x.pairId = some z ∧ x.seconds < z.seconds := by
      cases hcase : table.newest? x.pairId with
      | none => simp [hcase] at hall
      | some z => exact ⟨z, rfl, by simpa [hcase] using hall⟩
    obtain ⟨hz, hzpair⟩ := (hholds.newest?_eq_some_iff hx.pairId).1 hfound
    apply hholds.of_pair hentered (fun pair hpair _ => hlookup pair hpair) hother
    apply (hholds.identity x.pairId hx.pairId).congr (hlookup x.pairId hx.pairId)
    intro y hy
    exact hz.congr (History.isNewest_saved_of_lt hz hlt) (hy.trans hzpair.symm)

/-- Deleting keeps the identity row the one of the newest observation that is left. -/
theorem Holds.deleted (hholds : table.Holds h) (hp : IsPlain pairId)
    (hsecond : Bytes.IsModerate seconds) :
    (table.deleted pairId seconds).Holds (h.deleted pairId seconds) := by
  have hleft : (table.erase (Key.timed pairId seconds)).Enters (h.deleted pairId seconds) :=
    hholds.erase_timed hsecond
  have hlookup : ∀ pair, IsPlain pair →
      (table.erase (Key.timed pairId seconds)).lookup (Key.identity pair) =
        table.lookup (Key.identity pair) :=
    fun _ hpair => lookup_erase_timed table hsecond hpair pairId
  have hother : ∀ y : Observation, y.pairId ≠ pairId →
      ((h.deleted pairId seconds).IsNewest y ↔ h.IsNewest y) :=
    fun _ hy => History.isNewest_deleted_of_ne hy
  unfold Table.deleted
  dsimp only
  rw [newest?_congr (hlookup pairId hp)]
  by_cases hany : (table.newest? pairId).any (fun x => (x.seconds : Int) = seconds) = true
  · -- The newest one went: the last entry that is left takes its place, if there is one.
    rw [if_pos hany]
    cases hcase : (table.erase (Key.timed pairId seconds)).lastOf? pairId with
    | none =>
      apply hholds.of_pair (hleft.erase_identity hp) _ hother
      · apply repeats_erase
        intro y hy hypair
        have hlast := hleft.lastOf?_eq_some_iff.2 ⟨y, hy, hypair, rfl⟩
        rw [hcase] at hlast
        cases hlast
      · intro pair hpair hne
        exact (lookup_erase_identity _ hne).trans (hlookup pair hpair)
    | some record =>
      obtain ⟨x, hx, rfl, rfl⟩ := hleft.lastOf?_eq_some_iff.1 hcase
      apply hholds.of_pair (hleft.insert_identity hp _) _ hother (repeats_insert hx)
      intro pair hpair hne
      exact (lookup_insert_identity _ hne _).trans (hlookup pair hpair)
  · -- The newest one is still there.
    rw [if_neg hany]
    have hne : ∀ z, h.IsNewest z → z.pairId = pairId → (z.seconds : Int) ≠ seconds := by
      intro z hz hzpair heq
      have hfound := (hholds.newest?_eq_some_iff hp).2 ⟨hz, hzpair⟩
      exact hany (by simpa [hfound] using heq)
    apply hholds.of_pair hleft (fun pair hpair _ => hlookup pair hpair) hother
    exact (hholds.identity pairId hp).congr (hlookup pairId hp) fun y _ =>
      History.isNewest_deleted hne

/-! ## What a table shows -/

/-- A history is held by one table only. -/
theorem Holds.unique {other : Table} (hholds : table.Holds h) (hother : other.Holds h) :
    table = other := by
  have hkeys : ∀ key, (table.lookup key).isSome = true ∨ (other.lookup key).isSome = true →
      table.lookup key = other.lookup key := by
    intro key hsome
    have hplace : (∃ pair, ∃ second : Nat, second ≤ Time.maxSecond ∧ key = Key.timed pair second) ∨
        ∃ pair, IsPlain pair ∧ key = Key.identity pair := by
      rcases hsome with hsome | hsome
      · obtain ⟨value, hvalue⟩ := Option.isSome_iff_exists.1 hsome
        exact hholds.keys key value hvalue
      · obtain ⟨value, hvalue⟩ := Option.isSome_iff_exists.1 hsome
        exact hother.keys key value hvalue
    rcases hplace with ⟨pair, second, hsecond, rfl⟩ | ⟨pair, hpair, rfl⟩
    · rw [hholds.timed pair second hsecond, hother.timed pair second hsecond]
    · apply Option.ext
      intro value
      rw [hholds.identity pair hpair value, hother.identity pair hpair value]
  refine ext_lookup fun key => ?_
  by_cases hsome : (table.lookup key).isSome = true ∨ (other.lookup key).isSome = true
  · exact hkeys key hsome
  · simp only [not_or, Option.not_isSome_iff_eq_none] at hsome
    rw [hsome.1, hsome.2]

theorem Holds.isSound (hholds : table.Holds h) : table.IsSound := by
  rintro ⟨key, value⟩ hmem
  have hlookup := mem_rows_iff_lookup.1 hmem
  rcases hholds.keys key value hlookup with ⟨pair, second, hsecond, rfl⟩ | ⟨pair, hpair, rfl⟩
  · rw [hholds.timed pair second hsecond, Option.map_eq_some_iff] at hlookup
    obtain ⟨x, hx, rfl⟩ := hlookup
    obtain ⟨hhas, rfl, rfl⟩ := History.find?_eq_some_iff.1 hx
    exact isSound_of_readable (hholds.ordinary x hhas).readable (.inl rfl)
  · obtain ⟨x, hx, rfl, rfl⟩ := (hholds.identity pair hpair value).1 hlookup
    exact isSound_of_readable (hholds.ordinary x hx.has).readable (.inr rfl)

/-- All rows are below the root. -/
theorem IsSound.range_root (hsound : table.IsSound) :
    table.range Key.root (Key.upperBound? Key.root) = table.rows := by
  refine List.filter_eq_self.2 fun row hrow => Key.inRange_upperBound_iff.2 ?_
  obtain ⟨x, -, hkey | hkey⟩ := hsound row hrow
  · rw [hkey]
    exact Key.root_prefix_timed x.pairId x.seconds
  · rw [hkey]
    exact Key.root_prefix_identity x.pairId

/-- The rows that are shown, in the order of their keys, list the history. -/
theorem Enters.lists (henters : table.Enters h) : h.Lists (table.rows.filterMap shown?) where
  mem x := by
    rw [List.mem_filterMap]
    constructor
    · rintro ⟨row, hrow, hshown⟩
      exact (henters.mem_and_shown.1 ⟨hrow, shown?_eq_some_iff.1 hshown⟩).1
    · intro hx
      obtain ⟨hrow, hshown⟩ := henters.mem_and_shown.2 ⟨hx, rfl⟩
      exact ⟨_, hrow, shown?_eq_some_iff.2 hshown⟩
  ordered := by
    refine List.pairwise_filterMap.2 (table.ascending.imp_of_mem ?_)
    intro row other hrow hother hlt x hx y hy
    obtain ⟨hhas, rfl⟩ := henters.mem_and_shown.1 ⟨hrow, shown?_eq_some_iff.1 hx⟩
    obtain ⟨hhas', rfl⟩ := henters.mem_and_shown.1 ⟨hother, shown?_eq_some_iff.1 hy⟩
    exact (Key.timed_lt_timed_iff (henters.ordinary x hhas).pairId
      (henters.ordinary y hhas').pairId x.inTime y.inTime).1 hlt

end

end Table

end RateLedger
