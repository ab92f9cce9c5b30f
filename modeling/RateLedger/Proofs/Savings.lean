import Mathlib.Data.List.Pairwise
import RateLedger.Proofs.Drafts
import RateLedger.Proofs.Holdings

/-!
# What saving writes

Saving an observation writes its entry, and its identity row unless the row that is there does not
give way to it. Main statements: where a table has what before (`lookup_withSaved`); two
observations of different pairs or seconds may be saved in either order, whatever the rows were
before (`withSaved_comm`), and so may any number of them (`withSaved_perm`); and as a step in a
batch saving comes to that table, unless the engine fails (`works_save`). A sighting is saved if it
is an observation (`exists_of_saveSighting`), and refused otherwise.
-/

namespace RateLedger

/-- Whether an identity row gives way to an observation: there is none, or one that can be read and
is no newer. -/
def Observation.supersedes (x : Observation) (row : Option Bytes) : Bool :=
  match row.map readRecord with
  | none => true
  | some (.error _) => false
  | some (.ok current) => current.seconds ≤ x.seconds

/-- Two observations differ in their pairs or in their seconds. -/
def Observation.IsApart (x y : Observation) : Prop :=
  ¬(x.pairId = y.pairId ∧ x.seconds = y.seconds)

instance : Std.Symm Observation.IsApart :=
  ⟨fun _ _ h heq => h ⟨heq.1.symm, heq.2.symm⟩⟩

/-- The table with what saving an observation writes. -/
def Table.withSaved (table : Table) (x : Observation) : Table :=
  table.written (table.draft (.save x)).writes

section

variable {x y : Observation}

theorem supersedes_toRecord (hy : y.IsReadable) :
    x.supersedes (some y.toRecord) = decide (y.seconds ≤ x.seconds) := by
  unfold Observation.supersedes
  rw [Option.map_some, readRecord_eq_ok_iff.2 (Record.decode_toRecord hy)]

/-- What gives way to an observation gives way to later ones. -/
theorem supersedes_of_le {row : Option Bytes} (hle : x.seconds ≤ y.seconds)
    (h : x.supersedes row = true) : y.supersedes row = true := by
  unfold Observation.supersedes at h ⊢
  cases hrow : row.map readRecord with
  | none => rfl
  | some found =>
    rw [hrow] at h
    cases found with
    | error fault => cases h
    | ok current => exact decide_eq_true (Nat.le_trans (of_decide_eq_true h) hle)

namespace Table

theorem writes_draftNewest_eq (table : Table) (x : Observation) :
    (table.draftNewest x).writes =
      if x.supersedes (table.lookup (Key.ofPair x)) then [.put (Key.ofPair x) x.toRecord]
      else [] := by
  unfold draftNewest Observation.supersedes
  cases table.lookup (Key.ofPair x) with
  | none => rfl
  | some value =>
    rw [Option.map_some]
    dsimp only
    cases readRecord value with
    | error fault => rfl
    | ok current =>
      by_cases hle : current.seconds ≤ x.seconds
      · simp [hle]
      · simp [hle]

theorem lookup_withSaved (table : Table) (hx : x.IsOrdinary) (key : Bytes) :
    (table.withSaved x).lookup key =
      if key = Key.ofObservation x ∨
          (key = Key.ofPair x ∧ x.supersedes (table.lookup (Key.ofPair x)) = true) then
        some x.toRecord
      else table.lookup key := by
  have hentered : (table.insert (Key.ofObservation x) x.toRecord).lookup (Key.ofPair x) =
      table.lookup (Key.ofPair x) :=
    lookup_insert_timed table (Bytes.isModerate_second x.inTime) hx.pairId x.pairId x.toRecord
  show ((table.insert (Key.ofObservation x) x.toRecord).written
    ((table.insert (Key.ofObservation x) x.toRecord).draftNewest x).writes).lookup key = _
  rw [writes_draftNewest_eq, hentered]
  cases x.supersedes (table.lookup (Key.ofPair x)) with
  | false => simp [written, lookup_insert]
  | true =>
    rw [if_pos rfl]
    show ((table.insert _ _).insert _ _).lookup key = _
    rw [lookup_insert, lookup_insert]
    by_cases hentry : key = Key.ofObservation x
    · simp [hentry]
    · simp [hentry]

/-- The identity row of a pair after an observation of it is saved. -/
theorem lookup_identity_withSaved (table : Table) (hx : x.IsOrdinary) :
    (table.withSaved x).lookup (Key.ofPair x) =
      if x.supersedes (table.lookup (Key.ofPair x)) then some x.toRecord
      else table.lookup (Key.ofPair x) := by
  have hne : Key.ofPair x ≠ Key.ofObservation x :=
    (Key.timed_ne_identity (Bytes.isModerate_second x.inTime) hx.pairId).symm
  rw [lookup_withSaved table hx]
  simp [hne]

/-- The identity rows of other pairs stay. -/
theorem lookup_identity_withSaved_of_ne (table : Table) (hx : x.IsOrdinary) (hy : y.IsOrdinary)
    (hpair : x.pairId ≠ y.pairId) :
    (table.withSaved x).lookup (Key.ofPair y) = table.lookup (Key.ofPair y) := by
  have hentry : Key.ofPair y ≠ Key.ofObservation x :=
    (Key.timed_ne_identity (Bytes.isModerate_second x.inTime) hy.pairId).symm
  have hidentity : Key.ofPair y ≠ Key.ofPair x := fun heq => hpair (Key.identity_inj.1 heq).symm
  rw [lookup_withSaved table hx]
  simp [hentry, hidentity]

theorem ofObservation_ne (h : x.IsApart y) : Key.ofObservation x ≠ Key.ofObservation y := by
  intro heq
  have hsame := (Key.timed_inj (Bytes.isModerate_second x.inTime).fits
    (Bytes.isModerate_second y.inTime).fits).1 heq
  exact h ⟨hsame.1, by omega⟩

theorem ofPair_ne_ofObservation (hx : x.IsOrdinary) (y : Observation) :
    Key.ofPair x ≠ Key.ofObservation y :=
  (Key.timed_ne_identity (Bytes.isModerate_second y.inTime) hx.pairId).symm

/-- Of two observations of one pair, the later one has the identity row in the end, in whichever
order they are saved. -/
theorem withSaved_comm_of_lt (table : Table) (hx : x.IsOrdinary) (hy : y.IsOrdinary)
    (hpair : x.pairId = y.pairId) (hlt : x.seconds < y.seconds) :
    (table.withSaved x).withSaved y = (table.withSaved y).withSaved x := by
  have hplace : x.IsApart y := fun heq => Nat.ne_of_lt hlt heq.2
  have hentries := ofObservation_ne hplace
  have hentry := ofPair_ne_ofObservation hx x
  have hidentity : Key.ofPair y = Key.ofPair x := congrArg Key.identity hpair.symm
  have hlater : y.supersedes (some x.toRecord) = true :=
    (supersedes_toRecord hx.readable).trans (decide_eq_true (Nat.le_of_lt hlt))
  have hearlier : x.supersedes (some y.toRecord) = false :=
    (supersedes_toRecord hy.readable).trans (decide_eq_false (Nat.not_le_of_lt hlt))
  have hafter := lookup_identity_withSaved table hx
  have hbefore := lookup_identity_withSaved table hy
  rw [hidentity] at hbefore
  refine ext_lookup fun key => ?_
  rw [lookup_withSaved (table.withSaved x) hy, lookup_withSaved (table.withSaved y) hx, hidentity,
    hafter, hbefore, lookup_withSaved table hx, lookup_withSaved table hy, hidentity]
  generalize table.lookup (Key.ofPair x) = row at hafter hbefore ⊢
  have hmono : x.supersedes row = true → y.supersedes row = true :=
    supersedes_of_le (Nat.le_of_lt hlt)
  -- The later observation takes the row exactly if it would alone, and the earlier one never does.
  have hlast : y.supersedes (if x.supersedes row then some x.toRecord else row) =
      y.supersedes row := by
    cases hsupersedes : x.supersedes row with
    | false => rfl
    | true => exact hlater.trans (hmono hsupersedes).symm
  have hnever : x.supersedes (if y.supersedes row then some y.toRecord else row) = false := by
    cases hsupersedes : y.supersedes row with
    | false => exact Bool.eq_false_iff.2 fun hx' => by simp [hmono hx'] at hsupersedes
    | true => exact hearlier
  rw [hlast, hnever]
  by_cases hkey : key = Key.ofObservation x
  · subst hkey
    simp [hentries, hentry.symm]
  · by_cases hrow : key = Key.ofPair x ∧ x.supersedes row = true
    · simp [hrow.1, hmono hrow.2, hentry]
    · simp [hkey, hrow]

/-- Observations of different pairs or seconds may be saved in either order. -/
theorem withSaved_comm (table : Table) (hx : x.IsOrdinary) (hy : y.IsOrdinary) (h : x.IsApart y) :
    (table.withSaved x).withSaved y = (table.withSaved y).withSaved x := by
  by_cases hpair : x.pairId = y.pairId
  · rcases Nat.lt_trichotomy x.seconds y.seconds with hlt | heq | hgt
    · exact withSaved_comm_of_lt table hx hy hpair hlt
    · exact absurd ⟨hpair, heq⟩ h
    · exact (withSaved_comm_of_lt table hy hx hpair.symm hgt).symm
  · have hentries := ofObservation_ne h
    have hidentities : Key.ofPair x ≠ Key.ofPair y := fun heq => hpair (Key.identity_inj.1 heq)
    have hxy := ofPair_ne_ofObservation hx y
    have hyx := ofPair_ne_ofObservation hy x
    refine ext_lookup fun key => ?_
    rw [lookup_withSaved (table.withSaved x) hy, lookup_withSaved (table.withSaved y) hx,
      lookup_identity_withSaved_of_ne table hx hy hpair,
      lookup_identity_withSaved_of_ne table hy hx (Ne.symm hpair), lookup_withSaved table hx,
      lookup_withSaved table hy]
    by_cases hkey : key = Key.ofObservation x ∨ key = Key.ofPair x
    · rcases hkey with rfl | rfl
      · simp [hentries, hyx.symm]
      · simp [hxy, hidentities]
    · obtain ⟨hentry, hidentity⟩ := not_or.1 hkey
      simp [hentry, hidentity]

/-- Observations that all differ in their pairs or seconds may be saved in any order. -/
theorem withSaved_perm {list other : List Observation} (hperm : list.Perm other)
    (hordinary : ∀ x ∈ list, x.IsOrdinary) (hapart : list.Pairwise Observation.IsApart)
    (table : Table) : list.foldl withSaved table = other.foldl withSaved table := by
  refine hperm.foldl_eq' (fun x hx y hy table => ?_) table
  by_cases heq : x = y
  · rw [heq]
  · have h : x.IsApart y := hapart.forall hx hy heq
    exact withSaved_comm table (hordinary x hx) (hordinary y hy) h

/-- On sound rows the identity row gives way as the newest observation does. -/
theorem IsSound.supersedes_lookup {table : Table} (h : table.IsSound) (x : Observation) :
    x.supersedes (table.lookup (Key.ofPair x)) =
      (table.newest? x.pairId).all (·.seconds ≤ x.seconds) := by
  have hnewest : table.newest? x.pairId = (table.lookup (Key.ofPair x)).bind fun value =>
      (Record.decode value).toOption := rfl
  unfold Observation.supersedes
  rw [hnewest]
  cases hlookup : table.lookup (Key.ofPair x) with
  | none => rfl
  | some value =>
    obtain ⟨y, hdecode, -⟩ := h.of_lookup hlookup
    rw [Option.map_some, readRecord_eq_ok_iff.2 hdecode, Option.bind_some, hdecode]
    rfl

/-- On sound rows saving writes what it should. -/
theorem IsSound.withSaved {table : Table} (h : table.IsSound) (hx : x.IsReadable) :
    table.withSaved x = table.saved x := by
  have hentered : (table.insert (Key.ofObservation x) x.toRecord).IsSound :=
    h.insert (isSound_of_readable hx (.inl rfl))
  show (table.insert (Key.ofObservation x) x.toRecord).written
    ((table.insert (Key.ofObservation x) x.toRecord).draftNewest x).writes = _
  unfold Table.saved
  rw [writes_draftNewest_eq, hentered.supersedes_lookup]
  dsimp only
  cases ((table.insert (Key.ofObservation x) x.toRecord).newest? x.pairId).all _ with
  | false => rfl
  | true => rfl

end Table

end

/-! ## Saving as a step -/

namespace Store

variable {s : Store} {b : Nat}

/-- A step is kept from its answer by an outage of the engine only. -/
abbrev ByOutage (fault : StoreFault) (_ : Store) : Prop := fault.isOutage = true

theorem works_put (s : Store) (b : Nat) (key value : Bytes) :
    s.Works (put b key value) (.ok ⟨⟩) (s.withView b ((s.viewOf b).insert key value)) ByOutage :=
  .bind (.engineFor fun _ => rfl) (.modify rfl fun _ => rfl)

theorem works_draftNewest (h : s.isOpen b = true) (x : Observation) :
    let draft := (s.viewOf b).draftNewest x
    s.Works
      (do
        match ← readRow (.batch b) (Key.ofPair x) with
        | none => put b (Key.ofPair x) x.toRecord
        | some value =>
          let current ← ExceptT.mk (pure (readRecord value))
          if current.seconds ≤ x.seconds then put b (Key.ofPair x) x.toRecord)
      draft.answer (s.withView b ((s.viewOf b).written draft.writes)) ByOutage := by
  have hview : s.CanRead (.batch b) := h
  have hread : s.Works (readRow (.batch b) (Key.ofPair x))
      (.ok ((s.viewOf b).lookup (Key.ofPair x))) s ByOutage :=
    (reads_readRow hview _).mono fun _ _ hmid => hmid.1
  unfold Table.draftNewest
  refine .bind hread ?_
  cases (s.viewOf b).lookup (Key.ofPair x) with
  | none => exact works_put s b _ _
  | some value =>
    have hsame : s.withView b ((s.viewOf b).written []) = s := withView_viewOf h
    dsimp only
    cases readRecord value with
    | error fault =>
      rw [hsame]
      exact (Works.ofExcept (.error fault)).bind_error
    | ok current =>
      refine .bind (.ofExcept (.ok current)) ?_
      by_cases hle : current.seconds ≤ x.seconds
      · simp only [if_pos hle]
        exact works_put s b _ _
      · simp only [if_neg hle, hsame]
        exact .pure _

/-- Saving comes to its draft, unless the engine fails. -/
theorem works_save (h : s.isOpen b = true) (x : Observation) :
    s.Works (save b x) ((s.viewOf b).draft (.save x)).answer
      (s.withView b ((s.viewOf b).withSaved x)) ByOutage := by
  let entered := (s.viewOf b).insert (Key.ofObservation x) x.toRecord
  have hview : (s.withView b entered).viewOf b = entered := viewOf_withView h entered
  have hrest := works_draftNewest ((isOpen_withView s b entered b).trans h) x
  dsimp only at hrest
  rw [hview, withView_withView] at hrest
  exact .bind (.checkOpen h) (.bind (works_put s b _ _) hrest)

/-- What saving a sighting can fail with: a fault of the store as such, or the first flaw of a
code. -/
def IsSavingFault (y : Sighting) (fault : StoreFault) : Prop :=
  fault.isBackend = true ∨ ∃ flaw, y.stored = .error flaw ∧ fault = .unencodable flaw

/-- A sighting that cannot be stored is refused before anything is written. -/
theorem perform_saveSighting_of_flaw (h : s.isOpen b = true) {y : Sighting} {flaw : Text.Flaw}
    (hflaw : y.stored = .error flaw) :
    s.perform (saveSighting b y) = (.error (.unencodable flaw), s) := by
  unfold saveSighting checkOpen
  rw [hflaw]
  simp [perform_bind, h]

/-- A sighting that was saved is an observation, and its batch sees what saving that writes. -/
theorem exists_of_saveSighting (h : s.isOpen b = true) {y : Sighting}
    (hok : (s.perform (saveSighting b y)).1 = .ok ⟨⟩) :
    ∃ x : Observation, y = x ∧
      (s.perform (saveSighting b y)).2.viewOf b = (s.viewOf b).withSaved x := by
  cases hstored : y.stored with
  | error flaw =>
    rw [perform_saveSighting_of_flaw h hstored] at hok
    cases hok
  | ok x =>
    obtain rfl := Sighting.stored_eq_ok_iff.1 hstored
    obtain ⟨-, trace, hafter⟩ := (works_save h x).of_ok hok
    refine ⟨x, rfl, ?_⟩
    show (s.perform (save b x)).2.viewOf b = _
    rw [hafter]
    exact viewOf_withView h _

end Store

end RateLedger
