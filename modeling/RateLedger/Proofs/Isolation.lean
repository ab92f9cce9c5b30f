import RateLedger.Proofs.Atomicity
import RateLedger.Proofs.Ledgers
import RateLedger.Proofs.Soundness

/-!
# Pairs side by side

An edit writes to two keys, that of its pair and second and the identity key of its pair. If these
are none of the keys of another pair, nothing about the other pair changes: neither what a scan
shows of it nor its newest observation (`other_pairs_unchanged`). The keys are put together from the
identifier and the second without anything between, and identifiers from the codes and a `2`. So two
pairs may share an identifier, and with the character zero in a code, or at a second out of all
time, a key of one pair may be the identity key of another one; then they are not apart
(`pairs_meet`).
-/

namespace RateLedger

/-- The keys of a pair: its identity key, and those of its observations. -/
def Key.IsOf (pairId : String) (key : Bytes) : Prop :=
  key = Key.identity pairId ∨
    ∃ second : Nat, second ≤ Time.maxSecond ∧ key = Key.timed pairId second

/-- An edit stays apart from a pair if it writes to none of the keys of the pair. -/
def Edit.IsApart (change : Edit) (pairId : String) : Prop :=
  ∀ key ∈ change.keys, ¬Key.IsOf pairId key

section

variable {change : Edit} {pairId : String}

/-- Plain pairs with different identifiers are apart, at all seconds that an observation can
have. -/
theorem not_isOf_of_plain {p q : String} {seconds : Int} (hp : IsPlain p) (hq : IsPlain q)
    (hne : p ≠ q) (hseconds : Bytes.IsModerate seconds) :
    ¬Key.IsOf q (Key.timed p seconds) ∧ ¬Key.IsOf q (Key.identity p) := by
  constructor
  · rintro (heq | ⟨second, hsecond, heq⟩)
    · exact Key.timed_ne_identity hseconds hq heq
    · exact hne ((Key.timed_inj hseconds.fits (Bytes.isModerate_second hsecond).fits).1 heq).1
  · rintro (heq | ⟨second, hsecond, heq⟩)
    · exact hne (Key.identity_inj.1 heq)
    · exact Key.timed_ne_identity (Bytes.isModerate_second hsecond) hp heq.symm

/-- An edit of a plain pair is apart from the other plain pairs. -/
theorem isApart_of_plain {p : String} {seconds : Int}
    (hkeys : change.keys = [Key.timed p seconds, Key.identity p]) (hp : IsPlain p)
    (hq : IsPlain pairId) (hne : p ≠ pairId) (hseconds : Bytes.IsModerate seconds) :
    change.IsApart pairId := by
  obtain ⟨htimed, hidentity⟩ := not_isOf_of_plain hp hq hne hseconds
  intro key hkey
  rw [hkeys] at hkey
  rcases List.mem_pair.1 hkey with rfl | rfl
  · exact htimed
  · exact hidentity

namespace Table

/-- Two tables hold the same under the keys of a pair. -/
def AgreesOn (pairId : String) (table other : Table) : Prop :=
  ∀ key, Key.IsOf pairId key → table.lookup key = other.lookup key

variable {table other : Table}

theorem AgreesOn.refl (pairId : String) (table : Table) : table.AgreesOn pairId table :=
  fun _ _ => rfl

theorem AgreesOn.trans {third : Table} (h : table.AgreesOn pairId other)
    (hother : other.AgreesOn pairId third) : table.AgreesOn pairId third :=
  fun key hkey => (h key hkey).trans (hother key hkey)

theorem agreesOn_written {writes : List Write} (h : ∀ write ∈ writes, ¬Key.IsOf pairId write.key) :
    table.AgreesOn pairId (table.written writes) := by
  intro key hkey
  refine (lookup_written fun write hwrite heq => ?_).symm
  exact h write hwrite (heq ▸ hkey)

/-- An edit apart from a pair leaves its rows, however far it comes. -/
theorem agreesOn_draft (h : change.IsApart pairId) {made : List Write}
    (hmade : made <+: (table.draft change).writes) : table.AgreesOn pairId (table.written made) :=
  agreesOn_written fun _ hwrite => h _ (key_of_draft (hmade.subset hwrite))

theorem AgreesOn.readNewest (h : table.AgreesOn pairId other) :
    table.readNewest pairId = other.readNewest pairId := by
  unfold Table.readNewest
  rw [h _ (.inl rfl)]

theorem mem_shown {x : Observation} :
    x ∈ table.rows.filterMap shown? ↔
      ∃ value, table.lookup (Key.ofObservation x) = some value ∧ Record.decode value = .ok x := by
  rw [List.mem_filterMap]
  constructor
  · rintro ⟨⟨key, value⟩, hrow, hshown⟩
    obtain ⟨hdecode, rfl⟩ := shown?_eq_some_iff.1 hshown
    exact ⟨value, mem_rows_iff_lookup.1 hrow, hdecode⟩
  · rintro ⟨value, hlookup, hdecode⟩
    exact ⟨_, mem_rows_iff_lookup.2 hlookup, shown?_eq_some_iff.2 ⟨hdecode, rfl⟩⟩

theorem pairwise_shown (table : Table) :
    (table.rows.filterMap shown?).Pairwise fun x y =>
      Key.ofObservation x < Key.ofObservation y := by
  refine List.pairwise_filterMap.2 (table.ascending.imp fun {row other} hlt x hx y hy => ?_)
  rw [← (shown?_eq_some_iff.1 hx).2, ← (shown?_eq_some_iff.1 hy).2]
  exact hlt

/-- What is shown of a pair is determined by the rows under its keys. -/
theorem AgreesOn.shown (h : table.AgreesOn pairId other) {keep : Observation → Bool}
    (hkeep : ∀ x, keep x = true → x.pairId = pairId) :
    (table.rows.filterMap shown?).filter keep = (other.rows.filterMap shown?).filter keep := by
  refine eq_of_pairwise_of_mem_iff (fun _ _ => List.lt_asymm) (table.pairwise_shown.filter _)
    (other.pairwise_shown.filter _) fun x => ?_
  rw [List.mem_filter, List.mem_filter, mem_shown, mem_shown, and_congr_left_iff]
  intro hx
  rw [h (Key.ofObservation x) (.inr ⟨x.seconds, x.inTime, by rw [← hkeep x hx]; rfl⟩)]

end Table

end

/-! ## Edits of other pairs -/

/-- An edit keeps the rows of the pairs that it is apart from. -/
theorem Edit.IsApart.keeps {change : Edit} {pairId : String} (h : change.IsApart pairId)
    (table : Table) : change.Keeps (table.AgreesOn pairId) :=
  fun _ _ hother hmade => hother.trans (Table.agreesOn_draft h hmade)

/-- What a view shows comes from what another one showed before some calls for a batch: from the
committed rows, if a failed call undid what was written in the batch. -/
def View.behind (events : List EngineEvent) (b : Nat) : View → View
  | .committed => .committed
  | .batch c => if c = b ∧ events.any (·.undoes) = true then .committed else .batch c

namespace View

variable {events : List EngineEvent} {b : Nat} {view : View}

theorem behind_of_kept (h : events.any (·.undoes) = false) (b : Nat) (view : View) :
    view.behind events b = view := by
  cases view with
  | committed => rfl
  | batch c => simp [behind, h]

theorem behind_of_undone (h : events.any (·.undoes) = true) :
    (View.batch b).behind events b = .committed :=
  if_pos ⟨rfl, h⟩

theorem behind_of_ne (h : view ≠ .batch b) : view.behind events b = view := by
  cases view with
  | committed => rfl
  | batch c => exact if_neg fun hc => h (congrArg View.batch hc.1)

theorem canRead_behind {s : Store} (h : s.CanRead view) : s.CanRead (view.behind events b) := by
  cases view with
  | committed => trivial
  | batch c =>
    by_cases hc : c = b ∧ events.any (·.undoes) = true
    · rw [show (View.batch c).behind events b = .committed from if_pos hc]
      trivial
    · rw [show (View.batch c).behind events b = .batch c from if_neg hc]
      exact h

end View

namespace Store

section

variable {s t : Store} {view before : View} {pairId : String}

theorem canRead_withView (b : Nat) (table : Table) (h : s.CanRead view) :
    (s.withView b table).CanRead view := by
  cases view with
  | committed => trivial
  | batch c => exact (isOpen_withView s b table c).trans h

/-- Only the view of the batch shows the other table. -/
theorem agreesOn_withView {b : Nat} (hopen : s.isOpen b = true) {table : Table}
    (h : view = .batch b → (s.table before).AgreesOn pairId table)
    (hother : view ≠ .batch b → before = view) :
    (s.table before).AgreesOn pairId ((s.withView b table).table view) := by
  by_cases heq : view = .batch b
  · subst heq
    show (s.table before).AgreesOn pairId ((s.withView b table).viewOf b)
    rw [viewOf_withView hopen]
    exact h rfl
  · rw [hother heq]
    cases view with
    | committed => exact .refl pairId _
    | batch c =>
      have hne : c ≠ b := fun hc => heq (congrArg View.batch hc)
      show (s.viewOf c).AgreesOn pairId ((s.withView b table).viewOf c)
      rw [viewOf_withView_of_ne hne]
      exact .refl pairId _

/-- An edit leaves the rows of the pairs that it is apart from, in all views. -/
theorem agreesOn_edit {change : Edit} (h : change.IsApart pairId) (b : Nat)
    (hview : s.CanRead view) :
    let before := view.behind (s.eventsOf (.call (.edit b change))) b
    let t := (s.perform (change.step b)).2
    s.CanRead before ∧ t.CanRead view ∧ (s.table before).AgreesOn pairId (t.table view) := by
  intro before t
  cases hopen : s.isOpen b with
  | false =>
    have hsame : t = s := congrArg Prod.snd (perform_edit_closed hopen change)
    have hnone : s.eventsOf (.call (.edit b change)) = [] :=
      eventsOf_of_trace (congrArg Store.trace hsame)
    have hbefore : before = view := by
      unfold before
      rw [hnone]
      exact View.behind_of_kept rfl b view
    rw [hbefore, hsame]
    exact ⟨hview, hview, .refl pairId _⟩
  | true =>
    obtain ⟨events, made, -, hprefix, hafter⟩ := (makes_edit hopen change).made
    have hevents : s.eventsOf (.call (.edit b change)) = events :=
      eventsOf_of_trace (congrArg Store.trace hafter)
    have ht : t = _ := hafter
    have hbefore : before = view.behind events b := congrArg (view.behind · b) hevents
    rw [undoneBy_withView] at ht
    rw [hbefore, ht, table_withTrace]
    refine ⟨View.canRead_behind hview, canRead_withView b _ hview, ?_⟩
    refine agreesOn_withView hopen ?_ fun hne => View.behind_of_ne hne
    rintro rfl
    cases hundone : events.any (·.undoes) with
    | true =>
      rw [View.behind_of_undone hundone]
      exact .refl pairId _
    | false =>
      rw [View.behind_of_kept hundone]
      exact Table.agreesOn_draft h hprefix

/-- Two stores give the same for the newest observation of a pair, each in a view of its own, unless
an engine fails. -/
def AgreesOnNewest (s t : Store) (before view : View) (q : Pair) : Prop :=
  ∃ answer, s.Reads before (newest before q.id) answer ∧ t.Reads view (newest view q.id) answer

/-- Full scans of two stores, each in a view of its own, succeed, unless an engine fails, and show
the same observations of a pair. -/
def AgreesOnScan (s t : Store) (before view : View) (q : Pair) : Prop :=
  ∃ list other, s.Reads before (Cursor.all before).toList (.ok list) ∧
    t.Reads view (Cursor.all view).toList (.ok other) ∧
    list.filter (·.pair = q) = other.filter (·.pair = q)

theorem agreesOnNewest_of_tables {q : Pair} (hs : s.CanRead before) (ht : t.CanRead view)
    (h : (s.table before).AgreesOn q.id (t.table view)) : s.AgreesOnNewest t before view q :=
  ⟨_, reads_newest hs q.id, h.readNewest ▸ reads_newest ht q.id⟩

theorem agreesOnScan_of_tables {q : Pair} (hs : s.CanRead before) (ht : t.CanRead view)
    (hsound : s.IsSound) (hsound' : t.IsSound)
    (h : (s.table before).AgreesOn q.id (t.table view)) : s.AgreesOnScan t before view q := by
  refine ⟨_, _, reads_all_of_isSound hs (hsound.table before),
    reads_all_of_isSound ht (hsound'.table view), h.shown fun x hx => ?_⟩
  rw [← of_decide_eq_true hx]
  rfl

/-- Uses that edit nothing of a pair leave its rows in a register. -/
theorem agreesOn_registerAfter {r : Register} {table : Table} {uses : List Use}
    (h : r.Has (table.AgreesOn pairId))
    (huses : ∀ b change, .call (.edit b change) ∈ uses → change.IsApart pairId) :
    (s.registerAfter r uses).Has (table.AgreesOn pairId) := by
  induction uses generalizing s r with
  | nil => exact h
  | cons use rest ih =>
    refine ih (h.after fun b change huse => ?_) fun b change hmem => ?_
    · exact (huses b change (huse ▸ List.mem_cons_self)).keeps table
    · exact huses b change (List.mem_cons_of_mem _ hmem)

theorem afterUses_calls (s : Store) (calls : List Call) :
    s.afterUses (calls.map .call) = s.after calls :=
  List.foldl_map

theorem after_append (s : Store) (calls more : List Call) :
    s.after (calls ++ more) = (s.after calls).after more :=
  List.foldl_append

theorem accords_after (plan : FaultPlan) (calls : List Call) :
    ∃ r, (({ fresh with plan } : Store).after calls).Accords r := by
  have h := (accords_starting .empty plan).afterUses (calls.map .call)
  rw [afterUses_calls] at h
  exact ⟨_, h⟩

/-- A run without edits of a pair, from a store without an open batch, leaves the rows of the
pair. -/
theorem Accords.agreesOn_after {r : Register} (h : s.Accords r) (hclosed : ∀ b, s.isOpen b = false)
    {more : List Call} (hmore : ∀ b change, .edit b change ∈ more → change.IsApart pairId) :
    s.committed.AgreesOn pairId (s.after more).committed := by
  have hnone : r.pending = none := by
    cases hp : r.pending with
    | none => rfl
    | some p =>
      have hpending := Register.pending?_eq_some_iff.2 ⟨hp, rfl⟩
      rw [h.pending_of_closed (hclosed p.batch)] at hpending
      cases hpending
  have hstart : r.Has (s.committed.AgreesOn pairId) := by
    rw [h.committed]
    refine ⟨.refl pairId _, fun p hp => ?_, fun p hp => ?_⟩ <;>
    · rw [hnone] at hp
      cases hp
  have hafter := (h.afterUses (more.map .call)).committed
  rw [afterUses_calls] at hafter
  rw [hafter]
  refine (agreesOn_registerAfter hstart fun b change hmem => ?_).committed
  obtain ⟨call, hcall, heq⟩ := List.mem_map.1 hmem
  cases heq
  exact hmore b change hcall

end

/-- After any calls on a store, whatever its engine does: an edit that is apart from a pair changes,
in no view, the newest observation of the pair, nor what a full scan shows of the pair, if what was
saved can be read back; and a run of calls whose edits are all apart from the pair leaves both in
the committed rows, if no batch was open before. Pairs with different identifiers, in which the
character zero does not occur, are apart, if nothing is deleted at a second so large that its first
byte is more than a sign. -/
theorem other_pairs_unchanged (plan : FaultPlan) (calls : List Call) (q : Pair) :
    let s := ({ fresh with plan } : Store).after calls
    (∀ b change, change.IsApart q.id →
      let t := (s.perform (change.step b)).2
      ∀ view, s.CanRead view →
        let before := view.behind (s.eventsOf (.call (.edit b change))) b
        s.AgreesOnNewest t before view q ∧
        ((∀ c x, .edit c (.save x) ∈ calls ++ [.edit b change] → x.IsReadable) →
          s.AgreesOnScan t before view q)) ∧
    (∀ more, (∀ b, s.isOpen b = false) →
      (∀ b change, .edit b change ∈ more → change.IsApart q.id) →
      let t := s.after more
      s.AgreesOnNewest t .committed .committed q ∧
      ((∀ c x, .edit c (.save x) ∈ calls ++ more → x.IsReadable) →
        s.AgreesOnScan t .committed .committed q)) ∧
    (IsPlain q.id →
      (∀ x : Observation, IsPlain x.pairId → x.pairId ≠ q.id → (Edit.save x).IsApart q.id) ∧
      ∀ pairId seconds, IsPlain pairId → pairId ≠ q.id → Bytes.IsModerate seconds →
        (Edit.delete pairId seconds).IsApart q.id) := by
  intro s
  have hsound : ∀ more, (∀ c x, .edit c (.save x) ∈ calls ++ more → x.IsReadable) →
      s.IsSound ∧ (s.after more).IsSound := by
    intro more hsaves
    refine ⟨isSound_after plan fun c x hmem => hsaves c x (List.mem_append_left _ hmem), ?_⟩
    rw [← after_append]
    exact isSound_after plan hsaves
  refine ⟨fun b change hchange => ?_, fun more hclosed hmore => ?_, fun hq => ⟨?_, ?_⟩⟩
  · intro t view hview before
    obtain ⟨hbefore, hview', hagree⟩ := agreesOn_edit hchange b hview
    refine ⟨agreesOnNewest_of_tables hbefore hview' hagree, fun hsaves => ?_⟩
    obtain ⟨hs, ht⟩ := hsound [.edit b change] hsaves
    exact agreesOnScan_of_tables hbefore hview' hs ht hagree
  · intro t
    obtain ⟨r, haccords⟩ := accords_after plan calls
    have hagree := haccords.agreesOn_after hclosed hmore
    have hs : s.CanRead .committed := trivial
    have ht : t.CanRead .committed := trivial
    refine ⟨agreesOnNewest_of_tables hs ht hagree, fun hsaves => ?_⟩
    obtain ⟨hsound, hsound'⟩ := hsound more hsaves
    exact agreesOnScan_of_tables hs ht hsound hsound' hagree
  · exact fun x hx hne => isApart_of_plain rfl hx hq hne (Bytes.isModerate_second x.inTime)
  · exact fun pairId seconds hp hne hseconds => isApart_of_plain rfl hp hq hne hseconds

/-- An observation with the rate of `early`. -/
def likeEarly (base quote : String) (seconds : Nat) (hbase : base ≠ "") (hquote : quote ≠ "")
    (hdiffer : base ≠ quote) (hseconds : seconds ≤ Time.maxSecond) : Observation :=
  ⟨base, quote, early.rate, seconds, hbase, hquote, hdiffer, early.isRate, hseconds⟩

/-- Saving a rate of another pair in the open batch leaves the rate that the batch saw before. -/
theorem other_pairs_unchanged_letters :
    let calls : List Call := [.openBatch ⟨0⟩, .edit 0 (.save early)]
    let s := ({ fresh with plan := fun _ _ => none } : Store).after calls
    let other := likeEarly "GBP" "USD" 7 (by decide) (by decide) (by decide) (by decide)
    let t := (s.perform (Edit.step 0 (.save other))).2
    s.CanRead (.batch 0) ∧ (Edit.save other).IsApart early.pair.id ∧
    s.AgreesOnNewest t (.batch 0) (.batch 0) early.pair ∧
    s.AgreesOnScan t (.batch 0) (.batch 0) early.pair ∧
    (t.perform (newest (.batch 0) early.pair.id)).1 = .ok early := by
  intro calls s other t
  obtain ⟨hedit, -, hplain⟩ := other_pairs_unchanged (fun _ _ => none) calls early.pair
  have hopen : s.CanRead (.batch 0) := by
    show s.isOpen 0 = true
    decide
  have hapart : (Edit.save other).IsApart early.pair.id :=
    (hplain (by decide)).1 other (by decide) (by decide)
  obtain ⟨hnewest, hscan⟩ := hedit 0 (.save other) hapart (.batch 0) hopen
  have hreadable : ∀ c x, .edit c (.save x) ∈ calls ++ [.edit 0 (.save other)] → x.IsReadable := by
    intro c x hmem
    simp only [calls, List.cons_append, List.nil_append, List.mem_cons, List.not_mem_nil,
      or_false, reduceCtorEq, false_or, Call.edit.injEq, Edit.save.injEq] at hmem
    rcases hmem with ⟨-, rfl⟩ | ⟨-, rfl⟩
    · exact ⟨by decide, by decide⟩
    · exact ⟨by decide, by decide⟩
  exact ⟨hopen, hapart, hnewest, hscan hreadable, by decide +kernel⟩

/-- Different pairs may share their identifier, and then the newest observation of one is that of
the other. A deletion at a second out of all time may take the identity row of a longer identifier
with it. And where a code holds the character zero, the identity row of its pair may take the place
of an observation, which is not shown any more. -/
theorem pairs_meet :
    let saved := fun x => fresh.after [.openBatch ⟨0⟩, .edit 0 (.save x)]
    let edited := fun x change => ((saved x).perform (Edit.step 0 change)).2
    let newestIn := fun (s : Store) (x : Observation) => (s.perform (newest (.batch 0) x.pairId)).1
    let scanOf := fun (s : Store) => (s.perform (Cursor.all (.batch 0)).toList).1
    let front := likeEarly "A2B" "C" 5 (by decide) (by decide) (by decide) (by decide)
    let back := likeEarly "A" "B2C" 9 (by decide) (by decide) (by decide) (by decide)
    let letters := parity "USDAAAAAAAA" 5 (by decide) (by decide)
    let zeros := parity "USD\x00\x00\x00\x00AAAA" 2000000000 (by decide) (by decide)
    (front.pair ≠ back.pair ∧ newestIn (saved front) front = .ok front ∧
      newestIn (edited front (.save back)) front = .ok back) ∧
    (letters.pairId ≠ "EUR2USD" ∧ newestIn (saved letters) letters = .ok letters ∧
      newestIn (edited letters (.delete "EUR2USD" 4702111234474983745)) letters =
        .error (.notFound letters.pairId)) ∧
    (lettered.pair ≠ zeros.pair ∧ scanOf (saved lettered) = .ok [lettered] ∧
      scanOf (edited lettered (.save zeros)) = .ok [zeros]) := by
  decide +kernel

end Store

end RateLedger
