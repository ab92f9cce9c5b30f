import RateLedger.Proofs.Isolation
import RateLedger.Proofs.OwnBatches

/-!
# What a store shows

A scan shows the records of the rows under their own keys. Saving an observation adds it to what is
shown and nothing else, deletions only take away, and identity rows show nothing. So a property of
all that a store shows, in its committed rows and in those of its open batch, is kept by every use
that saves only what has the property (`ShowsOnly.use`), whatever calls of the engine fail. Pruning
keeps it as well, by whoever it is done, and where it comes to its end nothing is shown any more
that is older than the cutoff (`ShowsOnly.prune`).
-/

namespace RateLedger

/-- A table of sound rows, and all that they show has a property. -/
structure Table.ShowsOnly (table : Table) (P : Observation → Prop) : Prop where
  sound : table.IsSound
  shown : ∀ x ∈ table.rows.filterMap shown?, P x

/-- A row under an identity key of its own record shows nothing. -/
theorem shown?_identity {record : Bytes} {x y : Observation}
    (hdecode : Record.decode record = .ok x)
    (hshown : shown? (Key.ofPair x, record) = some y) : False := by
  obtain ⟨hother, hkey⟩ := shown?_eq_some_iff.1 hshown
  obtain rfl : x = y := Except.ok.inj (hdecode.symm.trans hother)
  exact Key.timed_ne_identity_self x.pairId x.seconds hkey.symm

namespace Table.ShowsOnly

variable {table : Table} {P Q : Observation → Prop}

theorem mono (h : table.ShowsOnly P) (himp : ∀ x, P x → Q x) : table.ShowsOnly Q :=
  ⟨h.sound, fun x hx => himp x (h.shown x hx)⟩

theorem insert (h : table.ShowsOnly P) {key value : Bytes} (hrow : RateLedger.IsSound (key, value))
    (hshown : ∀ x, shown? (key, value) = some x → P x) : (table.insert key value).ShowsOnly P := by
  refine ⟨h.sound.insert hrow, fun x hx => ?_⟩
  obtain ⟨row, hmem, hrow⟩ := List.mem_filterMap.1 hx
  rcases mem_insertRow hmem with rfl | hold
  · exact hshown x hrow
  · exact h.shown x (List.mem_filterMap.2 ⟨row, hold, hrow⟩)

/-- An identity row adds nothing to what is shown. -/
theorem insert_identity (h : table.ShowsOnly P) {record : Bytes} {x : Observation}
    (hdecode : Record.decode record = .ok x) : (table.insert (Key.ofPair x) record).ShowsOnly P :=
  h.insert ⟨x, hdecode, .inr rfl⟩ fun _ hshown => (shown?_identity hdecode hshown).elim

theorem erase (h : table.ShowsOnly P) (key : Bytes) :
    (table.erase key).ShowsOnly fun x => P x ∧ Key.ofObservation x ≠ key := by
  refine ⟨h.sound.erase key, fun x hx => ?_⟩
  obtain ⟨row, hmem, hrow⟩ := List.mem_filterMap.1 hx
  obtain ⟨hold, hkey⟩ := List.mem_filter.1 hmem
  refine ⟨h.shown x (List.mem_filterMap.2 ⟨row, hold, hrow⟩), ?_⟩
  rw [← (shown?_eq_some_iff.1 hrow).2]
  simpa using hkey

theorem written (h : table.ShowsOnly P) {writes : List Write}
    (hputs : ∀ key value, .put key value ∈ writes →
      RateLedger.IsSound (key, value) ∧ ∀ x, shown? (key, value) = some x → P x) :
    (table.written writes).ShowsOnly P := by
  induction writes generalizing table with
  | nil => exact h
  | cons write rest ih =>
    refine ih ?_ fun key value hmem => hputs key value (List.mem_cons_of_mem _ hmem)
    cases write with
    | put key value =>
      obtain ⟨hrow, hshown⟩ := hputs key value List.mem_cons_self
      exact h.insert hrow hshown
    | remove key => exact (h.erase key).mono fun x hx => hx.1

end Table.ShowsOnly

/-- An edit shows nothing new but what it saves, however far it comes. -/
theorem Edit.keeps_showsOnly {change : Edit} {P : Observation → Prop}
    (hsave : ∀ x, change = .save x → x.IsReadable ∧ P x) : change.Keeps (·.ShowsOnly P) := by
  intro table made h hmade
  have hscannable : table.IsScannable := fun row hrow _ => h.sound row hrow
  refine h.written fun key value hput => ?_
  obtain ⟨x, hdecode, hkey⟩ :=
    hscannable.put_of_draft (fun x hx => (hsave x hx).1) (hmade.subset hput)
  refine ⟨⟨x, hdecode, hkey.imp_left And.left⟩, fun y hshown => ?_⟩
  rcases hkey with ⟨-, heq⟩ | rfl
  · obtain rfl : x = y := Except.ok.inj (hdecode.symm.trans (shown?_eq_some_iff.1 hshown).1)
    exact (hsave x heq).2
  · exact (shown?_identity hdecode hshown).elim

namespace Table.ShowsOnly

variable {table : Table} {P : Observation → Prop}

/-- What was deleted is not shown any more, and the repair of the identity row shows nothing new. -/
theorem deleted (h : table.ShowsOnly P) (pairId : String) (seconds : Int) :
    (table.deleted pairId seconds).ShowsOnly fun x =>
      P x ∧ Key.ofObservation x ≠ Key.timed pairId seconds := by
  have hleft := h.erase (Key.timed pairId seconds)
  unfold Table.deleted
  dsimp only
  split
  · split
    · exact (hleft.erase _).mono fun x hx => hx.1
    · rename_i record hlast
      obtain ⟨x, hdecode, rfl⟩ := decode_of_lastOf? hlast
      exact hleft.insert_identity hdecode
  · exact hleft

theorem cleared (h : table.ShowsOnly P) (list : List Observation) :
    (table.cleared list).ShowsOnly fun x =>
      P x ∧ ∀ y ∈ list, Key.ofObservation x ≠ Key.ofObservation y := by
  induction list generalizing table P with
  | nil => exact h.mono fun x hx => ⟨hx, nofun⟩
  | cons y rest ih =>
    refine (ih (h.deleted y.pairId y.seconds)).mono fun x hx => ⟨hx.1.1, fun z hz => ?_⟩
    rcases List.mem_cons.1 hz with rfl | hz
    · exact hx.1.2
    · exact hx.2 z hz

/-- A table without what it showed that is old shows nothing old. -/
theorem cleared_old (h : table.ShowsOnly P) (old : Observation → Bool) :
    (table.cleared ((table.rows.filterMap shown?).filter old)).ShowsOnly fun x =>
      P x ∧ old x = false := by
  have hmem : table.ShowsOnly fun x => P x ∧ x ∈ table.rows.filterMap shown? :=
    ⟨h.sound, fun x hx => ⟨h.shown x hx, hx⟩⟩
  refine (hmem.cleared _).mono fun x hx => ⟨hx.1.1, Bool.eq_false_iff.2 fun hold => ?_⟩
  exact hx.2 x (List.mem_filter.2 ⟨hx.1.2, hold⟩) rfl

end Table.ShowsOnly

namespace Store

section

variable {s : Store}

/-! ## The lock while pruning -/

theorem keeps_guarded_of_orderly {step : StoreM α} (h : ∀ s : Store, s.Guarded → s.Orderly step) :
    Keeps Guarded (fun _ => True) step :=
  fun s hs => ⟨hs.moves (h s hs).moves, fun _ _ => trivial⟩

/-- Pruning moves the lock and the batches together. -/
theorem guarded_prune (cutoff : Time.DateTime) (wait : Binary64) :
    Keeps Guarded (fun _ => True) (prune cutoff wait) := by
  have hleave : ∀ b, Keeps Guarded (fun _ => True) (leave b) := by
    refine fun b => Keeps.get_bind fun s => ?_
    cases s.isOpen b with
    | true => exact keeps_guarded_of_orderly fun _ hs => hs.orderly_discard b
    | false => exact Keeps.pure _
  have hsweep : ∀ b, Keeps Guarded (fun _ => True) (sweep b cutoff) := by
    intro b s hs
    have hsame := (outside_sweep s b cutoff s (.refl s)).1.toSameHandles
    exact ⟨hs.moves (.stays hsame), fun _ _ => trivial⟩
  rw [prune_eq]
  refine Keeps.bind (Keeps.bind ?_ fun b => Keeps.ensuring ?_ (hleave b)) fun stale => ?_
  · exact keeps_guarded_of_orderly fun s _ => orderly_openBatch s wait
  · refine Keeps.bind (hsweep b) fun stale => Keeps.bind ?_ fun _ => Keeps.pure _
    exact keeps_guarded_of_orderly fun _ hs => hs.orderly_commit b
  · exact Keeps.bind (Keeps.modify fun _ hs => ⟨hs.once, hs.locked⟩) fun _ => Keeps.pure _

/-! ## All that a store shows -/

/-- The register of a store without an open batch. -/
theorem accords_of_free (h : s.Guarded) (hfree : s.locked = false) :
    s.Accords ⟨s.committed, none, s.batches.length⟩ :=
  ⟨h, rfl, rfl, h.closed hfree, nofun, nofun⟩

/-- A store agrees with some register, all rows of which show only what has a property. -/
def ShowsOnly (s : Store) (P : Observation → Prop) : Prop :=
  ∃ r, s.Accords r ∧ r.Has (·.ShowsOnly P)

end

namespace ShowsOnly

variable {s : Store} {P Q : Observation → Prop}

theorem mono (h : s.ShowsOnly P) (himp : ∀ x, P x → Q x) : s.ShowsOnly Q := by
  obtain ⟨r, haccords, hrows⟩ := h
  exact ⟨r, haccords, hrows.committed.mono himp, fun p hp => (hrows.base p hp).mono himp,
    fun p hp => (hrows.pending p hp).mono himp⟩

theorem committed (h : s.ShowsOnly P) : s.committed.ShowsOnly P := by
  obtain ⟨r, haccords, hrows⟩ := h
  rw [haccords.committed]
  exact hrows.committed

theorem of_free (hguarded : s.Guarded) (hfree : s.locked = false)
    (hrows : s.committed.ShowsOnly P) : s.ShowsOnly P :=
  ⟨_, accords_of_free hguarded hfree, hrows, nofun, nofun⟩

theorem withJournal (h : s.ShowsOnly P) (journal : Journal) :
    ({ s with journal } : Store).ShowsOnly P := by
  obtain ⟨r, ha, hrows⟩ := h
  exact ⟨r, ⟨⟨ha.guarded.once, ha.guarded.locked⟩, ha.committed, ha.count, ha.isOpen, ha.view,
    ha.base⟩, hrows⟩

/-- A use shows nothing new but what it saves. -/
theorem use (h : s.ShowsOnly P) {use : Use}
    (hsave : ∀ b x, use = .call (.edit b (.save x)) → x.IsReadable ∧ P x) :
    (s.perform use.step).2.ShowsOnly P := by
  obtain ⟨r, haccords, hrows⟩ := h
  refine ⟨_, haccords.step use, hrows.after fun b change huse => ?_⟩
  refine Edit.keeps_showsOnly fun x hx => hsave b x ?_
  rw [huse, hx]

/-- Pruning shows nothing new, and nothing that is older than the cutoff if it comes to its end. -/
theorem prune (h : s.ShowsOnly P) (cutoff : Time.DateTime) (wait : Binary64) :
    let out := s.perform (prune cutoff wait)
    out.2.ShowsOnly P ∧
      ∀ count, out.1 = .ok count → out.2.ShowsOnly fun x => P x ∧ x.isOlder cutoff = false := by
  intro out
  have hguarded : out.2.Guarded := by
    obtain ⟨r, haccords, -⟩ := h
    exact (guarded_prune cutoff wait s haccords.guarded).1
  rcases prune_cases h.committed.sound cutoff wait with
    ⟨hsame, fault, hfault⟩ | ⟨hfree, ⟨hcleared, -⟩ | ⟨hsame, fault, hfault⟩⟩
  · refine ⟨hsame ▸ h, fun count hcount => ?_⟩
    cases hcount.symm.trans hfault
  · have hrows := h.committed.cleared_old (·.isOlder cutoff)
    rw [← hcleared] at hrows
    have hall := of_free hguarded hfree hrows
    exact ⟨hall.mono fun x hx => hx.1, fun _ _ => hall⟩
  · refine ⟨of_free hguarded hfree (hsame ▸ h.committed), fun count hcount => ?_⟩
    cases hcount.symm.trans hfault

/-- A full scan of the committed rows succeeds, unless the engine fails, and shows only that. -/
theorem scan (h : s.ShowsOnly P) :
    ∃ list, s.Reads .committed (Cursor.all .committed).toList (.ok list) ∧ ∀ x ∈ list, P x :=
  ⟨_, reads_all_of_isSound trivial h.committed.sound, h.committed.shown⟩

end ShowsOnly

end Store

end RateLedger
