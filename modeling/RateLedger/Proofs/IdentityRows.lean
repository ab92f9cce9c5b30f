import RateLedger.Proofs.Ledgers

/-!
# Identity rows

The identity row of a pair is data that is there twice: it repeats the entry with the latest second
of the pair, byte for byte, and is missing where the pair has no entry. So reading it gives the
observation that a full scan shows as the newest one of the pair. The row is only trusted after its
record was found to be of the pair that was asked for, which matters where the row under an identity
key is the entry of another pair.
-/

namespace RateLedger

/-- What a table gives to the question for the newest observation of a pair. -/
def Table.readNewest (table : Table) (pairId : String) : Except StoreFault Observation :=
  match table.lookup (Key.identity pairId) with
  | none => .error (.notFound pairId)
  | some value => do
    let x ← readRecord value
    if x.pairId = pairId then .ok x else .error (.foreignIdentity pairId x.pairId)

namespace Table

variable {table : Table} {h : History} {x : Observation} {pairId : String}

theorem Holds.readNewest_of_isNewest (hholds : table.Holds h) (hp : IsPlain pairId)
    (hx : h.IsNewest x) (hpair : x.pairId = pairId) : table.readNewest pairId = .ok x := by
  have hlookup := (hholds.identity pairId hp x.toRecord).2 ⟨x, hx, hpair, rfl⟩
  have hdecode := Record.decode_toRecord (hholds.ordinary x hx.has).readable
  unfold readNewest
  rw [hlookup]
  dsimp only
  rw [readRecord_eq_ok_iff.2 hdecode]
  exact if_pos hpair

theorem Holds.readNewest_of_none (hholds : table.Holds h) (hp : IsPlain pairId)
    (hnone : ∀ x, h.Has x → x.pairId ≠ pairId) :
    table.readNewest pairId = .error (.notFound pairId) := by
  have hlookup : table.lookup (Key.identity pairId) = none := by
    rw [Option.eq_none_iff_forall_ne_some]
    intro value hvalue
    obtain ⟨x, hx, hpair, -⟩ := (hholds.identity pairId hp value).1 hvalue
    exact hnone x hx.has hpair
  unfold readNewest
  rw [hlookup]

/-- Either a pair has a newest observation, which is read, or it has none, and is not found. -/
theorem Holds.readNewest_cases (hholds : table.Holds h) (hp : IsPlain pairId) :
    (∃ x, h.IsNewest x ∧ x.pairId = pairId ∧ table.readNewest pairId = .ok x) ∨
      ((∀ x, h.Has x → x.pairId ≠ pairId) ∧
        table.readNewest pairId = .error (.notFound pairId)) := by
  by_cases hsome : ∃ y, h.Has y ∧ y.pairId = pairId
  · obtain ⟨y, hy, rfl⟩ := hsome
    obtain ⟨x, hx, hpair⟩ := History.exists_isNewest hy
    exact .inl ⟨x, hx, hpair, hholds.readNewest_of_isNewest hp hx hpair⟩
  · have hnone : ∀ x, h.Has x → x.pairId ≠ pairId := fun x hx hpair => hsome ⟨x, hx, hpair⟩
    exact .inr ⟨hnone, hholds.readNewest_of_none hp hnone⟩

theorem Holds.readNewest_eq_ok_iff (hholds : table.Holds h) (hp : IsPlain pairId) :
    table.readNewest pairId = .ok x ↔ h.IsNewest x ∧ x.pairId = pairId := by
  constructor
  · intro hread
    rcases hholds.readNewest_cases hp with ⟨y, hy, hpair, hok⟩ | ⟨-, herror⟩
    · rw [hread] at hok
      cases hok
      exact ⟨hy, hpair⟩
    · rw [hread] at herror
      cases herror
  · rintro ⟨hx, hpair⟩
    exact hholds.readNewest_of_isNewest hp hx hpair

theorem Holds.readNewest_eq_notFound_iff (hholds : table.Holds h) (hp : IsPlain pairId) :
    table.readNewest pairId = .error (.notFound pairId) ↔ ∀ x, h.Has x → x.pairId ≠ pairId := by
  constructor
  · intro hread
    rcases hholds.readNewest_cases hp with ⟨y, -, -, hok⟩ | ⟨hnone, -⟩
    · rw [hread] at hok
      cases hok
    · exact hnone
  · exact hholds.readNewest_of_none hp

/-- Under the identity key of a text that is not plain there may be the entry of a pair; it is
refused then, as the record is of another pair. -/
theorem Holds.readNewest_of_entry (hholds : table.Holds h) (hx : h.Has x)
    (hkey : Key.ofObservation x = Key.identity pairId) :
    ¬IsPlain pairId ∧ table.readNewest pairId = .error (.foreignIdentity pairId x.pairId) := by
  have hplain : ¬IsPlain pairId := fun hp =>
    Key.timed_ne_identity (Bytes.isModerate_second x.inTime) hp hkey
  have hpair : x.pairId ≠ pairId := fun heq =>
    hplain (heq ▸ (hholds.ordinary x hx).pairId)
  have hlookup := (hholds.lookup_timed x.inTime).2 ⟨x, hx, rfl, rfl, rfl⟩
  have hdecode := Record.decode_toRecord (hholds.ordinary x hx).readable
  refine ⟨hplain, ?_⟩
  unfold readNewest
  rw [← hkey, Key.ofObservation, hlookup]
  dsimp only
  rw [readRecord_eq_ok_iff.2 hdecode]
  exact if_neg hpair

theorem Holds.readNewest_of_free (hholds : table.Holds h)
    (hnone : ∀ x, h.Has x → x.pairId ≠ pairId)
    (hfree : ∀ x, h.Has x → Key.ofObservation x ≠ Key.identity pairId) :
    table.readNewest pairId = .error (.notFound pairId) := by
  by_cases hp : IsPlain pairId
  · exact hholds.readNewest_of_none hp hnone
  · have hlookup : table.lookup (Key.identity pairId) = none := by
      rw [Option.eq_none_iff_forall_ne_some]
      intro value hvalue
      rcases hholds.keys _ value hvalue with ⟨pair, second, hsecond, hkey⟩ | ⟨pair, hpair, hkey⟩
      · rw [hkey, hholds.timed pair second hsecond, Option.map_eq_some_iff] at hvalue
        obtain ⟨x, hx, -⟩ := hvalue
        obtain ⟨hhas, rfl, rfl⟩ := History.find?_eq_some_iff.1 hx
        exact hfree x hhas hkey.symm
      · exact hp (Key.identity_inj.1 hkey ▸ hpair)
    unfold readNewest
    rw [hlookup]

/-- The identity row is there if an entry of the pair is. -/
theorem Holds.isSome_identity_iff (hholds : table.Holds h) (hp : IsPlain pairId) :
    (table.lookup (Key.identity pairId)).isSome = true ↔
      ∃ second : Nat, second ≤ Time.maxSecond ∧
        (table.lookup (Key.timed pairId second)).isSome = true := by
  constructor
  · intro hsome
    obtain ⟨value, hvalue⟩ := Option.isSome_iff_exists.1 hsome
    obtain ⟨x, hx, rfl, rfl⟩ := (hholds.identity pairId hp value).1 hvalue
    refine ⟨x.seconds, x.inTime, ?_⟩
    rw [(hholds.lookup_timed x.inTime).2 ⟨x, hx.has, rfl, rfl, rfl⟩]
    rfl
  · rintro ⟨second, hsecond, hsome⟩
    rw [hholds.timed pairId second hsecond, Option.isSome_map] at hsome
    obtain ⟨y, hy⟩ := Option.isSome_iff_exists.1 hsome
    obtain ⟨hhas, rfl, -⟩ := History.find?_eq_some_iff.1 hy
    obtain ⟨x, hx, hpair⟩ := History.exists_isNewest hhas
    rw [(hholds.identity y.pairId hp x.toRecord).2 ⟨x, hx, hpair, rfl⟩]
    rfl

/-- The identity row has the bytes of the latest entry. -/
theorem Holds.latest_of_identity (hholds : table.Holds h) (hp : IsPlain pairId) {value : Bytes}
    (hvalue : table.lookup (Key.identity pairId) = some value) :
    ∃ second : Nat, second ≤ Time.maxSecond ∧
      table.lookup (Key.timed pairId second) = some value ∧
      ∀ other : Nat, other ≤ Time.maxSecond →
        (table.lookup (Key.timed pairId other)).isSome = true → other ≤ second := by
  obtain ⟨x, hx, rfl, rfl⟩ := (hholds.identity pairId hp value).1 hvalue
  refine ⟨x.seconds, x.inTime, ?_, fun other hother hsome => ?_⟩
  · exact (hholds.lookup_timed x.inTime).2 ⟨x, hx.has, rfl, rfl, rfl⟩
  · rw [hholds.timed x.pairId other hother, Option.isSome_map] at hsome
    obtain ⟨y, hy⟩ := Option.isSome_iff_exists.1 hsome
    obtain ⟨hhas, hpair, rfl⟩ := History.find?_eq_some_iff.1 hy
    exact hx.le y hhas hpair

end Table

namespace Store

theorem reads_newest {s : Store} {view : View} (hview : s.CanRead view) (pairId : String) :
    s.Reads view (newest view pairId) ((s.table view).readNewest pairId) := by
  have hread : s.Reads view
      (do
        match ← readRow view (Key.identity pairId) with
        | none => throw (.notFound pairId)
        | some value =>
          let x ← ExceptT.mk (pure (readRecord value))
          if x.pairId = pairId then return x else throw (.foreignIdentity pairId x.pairId))
      ((s.table view).readNewest pairId) := by
    refine Works.bind (reads_readRow hview _) ?_
    unfold Table.readNewest
    cases (s.table view).lookup (Key.identity pairId) with
    | none => exact Works.throw _
    | some value =>
      refine Works.ofExcept_bind fun x _ => ?_
      by_cases hpair : x.pairId = pairId
      · rw [if_pos hpair, if_pos hpair]
        exact Works.pure _
      · rw [if_neg hpair, if_neg hpair]
        exact Works.throw _
  cases view with
  | committed => exact hread
  | batch b => exact Works.bind (Works.checkOpen hview) hread

theorem Mirrors.newest {s : Store} {l : Ledger} (h : s.Mirrors l) (pairId : String) :
    (s.perform (newest .committed pairId)).1 = s.committed.readNewest pairId := by
  have hview : s.CanRead .committed := trivial
  obtain ⟨events, hperform⟩ := (reads_newest hview pairId).perform h.reliable
  rw [hperform]
  rfl

/-- After any ordinary calls, on the committed table and in an open batch alike: the identity row of
a plain pair is there if the pair has an entry, and repeats the latest one. What is read there is
what a full scan shows as the newest of the pair, and nothing is found if the scan shows nothing. -/
theorem identity_row_repeats_latest (calls : List Call) (hcalls : ∀ call ∈ calls, call.IsOrdinary)
    (view : View) (hview : (fresh.after calls).CanRead view) (pairId : String)
    (hp : IsPlain pairId) :
    let s := fresh.after calls
    let table := s.table view
    ((table.lookup (Key.identity pairId)).isSome = true ↔
      ∃ second : Nat, second ≤ Time.maxSecond ∧
        (table.lookup (Key.timed pairId second)).isSome = true) ∧
    (∀ value, table.lookup (Key.identity pairId) = some value →
      ∃ second : Nat, second ≤ Time.maxSecond ∧
        table.lookup (Key.timed pairId second) = some value ∧
        ∀ other : Nat, other ≤ Time.maxSecond →
          (table.lookup (Key.timed pairId other)).isSome = true → other ≤ second) ∧
    ∃ list, (s.perform (Cursor.all view).toList).1 = .ok list ∧
      (∀ x, (s.perform (newest view pairId)).1 = .ok x ↔
        x ∈ list ∧ x.pairId = pairId ∧ ∀ y ∈ list, y.pairId = pairId → y.seconds ≤ x.seconds) ∧
      ((s.perform (newest view pairId)).1 = .error (.notFound pairId) ↔
        ∀ x ∈ list, x.pairId ≠ pairId) := by
  intro s table
  have h : s.Mirrors (Ledger.fresh.after calls) := mirrors_after hcalls
  obtain ⟨history, hhistory⟩ := h.exists_history hview
  obtain ⟨-, hholds⟩ := h.table hhistory
  refine ⟨hholds.isSome_identity_iff hp, fun value => hholds.latest_of_identity hp, ?_⟩
  obtain ⟨list, hscan, hlists⟩ := h.scan hhistory
  obtain ⟨events, hperform⟩ := (reads_newest hview pairId).perform h.reliable
  refine ⟨list, hscan, fun x => ?_, ?_⟩
  · rw [hperform, hholds.readNewest_eq_ok_iff hp]
    constructor
    · rintro ⟨hx, hpair⟩
      exact ⟨(hlists.mem x).2 hx.has, hpair, fun y hy hsame =>
        hx.le y ((hlists.mem y).1 hy) (hsame.trans hpair.symm)⟩
    · rintro ⟨hx, hpair, hlast⟩
      exact ⟨⟨(hlists.mem x).1 hx, fun y hy hsame =>
        hlast y ((hlists.mem y).2 hy) (hsame.trans hpair)⟩, hpair⟩
  · rw [hperform, hholds.readNewest_eq_notFound_iff hp]
    exact forall_congr' fun x => by rw [hlists.mem]

theorem newest_outOfOrder :
    (∀ call ∈ outOfOrder, call.IsOrdinary) ∧ (fresh.after outOfOrder).CanRead .committed ∧
    IsPlain "EUR2USD" ∧
    ((fresh.after outOfOrder).perform (newest .committed "EUR2USD")).1 = .ok early := by
  have hplain : IsPlain "EUR2USD" := by decide
  refine ⟨isOrdinary_outOfOrder, trivial, hplain, ?_⟩
  obtain ⟨-, -, list, hscan, hnewest, -⟩ :=
    identity_row_repeats_latest outOfOrder isOrdinary_outOfOrder .committed trivial "EUR2USD" hplain
  obtain ⟨shown, hshown, hlists⟩ := (mirrors_after isOrdinary_outOfOrder).scan
    (Ledger.history?_committed _)
  rw [hlists.unique lists_outOfOrder, hscan] at hshown
  obtain rfl : list = [early, longer] := Except.ok.inj hshown
  refine (hnewest early).2 ⟨List.mem_cons_self, by decide, fun y hy hpair => ?_⟩
  rcases List.mem_pair.1 hy with rfl | rfl
  · exact Nat.le_refl _
  · exact absurd hpair (by decide)

end Store

end RateLedger
