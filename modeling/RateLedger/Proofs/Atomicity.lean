import RateLedger.Proofs.Drafts
import RateLedger.Proofs.Handles
import RateLedger.Proofs.IdentityRows

/-!
# All or nothing

A register is kept beside a store. It is told which use is made of the store and which calls of the
engine were made for it, and writes down the rows that are committed and the writes of the batch
that is open; it never looks at the rows of the store (`Register.after`). Only a commit of the open
batch that the engine lets pass changes the committed rows of a register, and then to the rows that
were committed when the batch was opened, with all writes that were made in it since and not undone
by the engine. A store and its register agree after any uses, whatever calls of the engine fail
(`Accords.step`), and so do the rows that readers see (`commit_all_or_nothing`).
-/

namespace RateLedger

/-- A batch that is open: its number, the rows that were committed when it was opened, and the
writes that were made in it since, in their order. -/
structure Pending where
  batch : Nat
  base : Table
  /-- The first writes, which the engine has undone. -/
  undone : List Write
  /-- The writes that stand. -/
  writes : List Write

namespace Pending

/-- The rows of a batch: those it was opened on, with its own writes. -/
def rows (p : Pending) : Table := p.base.written p.writes

/-- The batch of which all writes are undone. -/
def emptied (p : Pending) : Pending := { p with undone := p.undone ++ p.writes, writes := [] }

/-- The batch after some more writes, and some calls of the engine that were made meanwhile. -/
def after (p : Pending) (made : List Write) (events : List EngineEvent) : Pending :=
  let longer := { p with writes := p.writes ++ made }
  if events.any (·.undoes) then longer.emptied else longer

variable (p : Pending) (made : List Write)

theorem batch_after (events : List EngineEvent) : (p.after made events).batch = p.batch := by
  unfold after
  split <;> rfl

theorem base_after (events : List EngineEvent) : (p.after made events).base = p.base := by
  unfold after
  split <;> rfl

theorem undone_after {events : List EngineEvent} (h : events.any (·.undoes) = false) :
    (p.after made events).undone = p.undone := by
  unfold after
  rw [h]
  rfl

/-- The writes follow upon those before, or none of them is left. -/
theorem rows_after (events : List EngineEvent) : (p.after made events).rows =
    if events.any (·.undoes) then p.base else p.rows.written made := by
  unfold after rows
  split
  · rfl
  · exact Table.written_append _ _ _

end Pending

/-- What was committed to a store, the batch that is open, and how many were opened. -/
structure Register where
  committed : Table
  pending : Option Pending
  opened : Nat

namespace Register

/-- The register of a store that was not used. -/
def starting (committed : Table) : Register := ⟨committed, none, 0⟩

/-- The batch of a number, if it is open. -/
def pending? (r : Register) (b : Nat) : Option Pending := r.pending.filter (·.batch == b)

/-- The rows that a view shows, unless it is that of a batch that is not open. -/
def shown? (r : Register) : View → Option Table
  | .committed => some r.committed
  | .batch b => (r.pending? b).map (·.rows)

/-- A batch is opened if the engine opened a session for it. -/
def opening (r : Register) (events : List EngineEvent) : Register :=
  if ⟨.openSession, none⟩ ∈ events then
    { r with pending := some ⟨r.opened, r.committed, [], []⟩, opened := r.opened + 1 }
  else r

/-- The writes that were made in a batch are added to it, and calls of the engine that failed may
have undone them all. -/
def writing (r : Register) (b : Nat) (made : Pending → List Write) (events : List EngineEvent) :
    Register :=
  match r.pending? b with
  | none => r
  | some p => { r with pending := some (p.after (made p) events) }

/-- The writes of an edit are those that the engine let pass. -/
def editing (r : Register) (b : Nat) (change : Edit) (events : List EngineEvent) : Register :=
  r.writing b (fun (p : Pending) => (p.rows.draft change).writes.take (landed events)) events

/-- Reading makes no writes. -/
def reading (r : Register) (events : List EngineEvent) : View → Register
  | .committed => r
  | .batch b => r.writing b (fun (_ : Pending) => []) events

/-- A commit ends its batch, and its rows are committed if the engine did commit. -/
def committing (r : Register) (b : Nat) (events : List EngineEvent) : Register :=
  match r.pending? b with
  | none => r
  | some p =>
    { r with
      pending := none
      committed := if ⟨.commit, none⟩ ∈ events then p.rows else r.committed }

/-- A batch that ends in another way is forgotten. -/
def dropping (r : Register) (b : Nat) : Register :=
  match r.pending? b with
  | none => r
  | some _ => { r with pending := none }

/-- The register after a use for which some calls of the engine were made. -/
def after (r : Register) (events : List EngineEvent) : Use → Register
  | .call (.openBatch _) => r.opening events
  | .call (.edit b change) => r.editing b change events
  | .call (.commit b) => r.committing b events
  | .call (.discard b) | .leave b _ => r.dropping b
  | .newest view _ => r.reading events view
  | .pull cursor _ => r.reading events cursor.view

section

variable {r : Register} {b : Nat} {p : Pending} {events : List EngineEvent}

theorem pending?_eq_some_iff : r.pending? b = some p ↔ r.pending = some p ∧ p.batch = b := by
  simp [pending?, Option.filter_eq_some_iff]

/-- Nothing of what was written in the open batch has been undone. -/
def IsWhole (r : Register) : Prop := ∀ p, r.pending = some p → p.undone = []

theorem IsWhole.writing (h : r.IsWhole) (hkept : events.any (·.undoes) = false)
    (made : Pending → List Write) : (r.writing b made events).IsWhole := by
  unfold Register.writing
  cases hp : r.pending? b with
  | none => exact h
  | some p =>
    intro q hq
    cases hq
    exact (p.undone_after _ hkept).trans (h p (pending?_eq_some_iff.1 hp).1)

/-- A batch stays whole while the engine undoes nothing. -/
theorem IsWhole.after (h : r.IsWhole) (hkept : events.any (·.undoes) = false) (use : Use) :
    (r.after events use).IsWhole := by
  have hreading : ∀ view, (r.reading events view).IsWhole := by
    intro view
    cases view with
    | committed => exact h
    | batch b => exact h.writing hkept _
  have hdropping : ∀ b, (r.dropping b).IsWhole := by
    intro b
    unfold dropping
    split
    · exact h
    · exact nofun
  cases use with
  | call made =>
    cases made with
    | openBatch wait =>
      show (r.opening events).IsWhole
      unfold opening
      split
      · intro p hp
        cases hp
        rfl
      · exact h
    | edit b change => exact h.writing hkept _
    | commit b =>
      show (r.committing b events).IsWhole
      unfold committing
      split
      · exact h
      · exact nofun
    | discard b => exact hdropping b
  | newest view pairId => exact hreading view
  | pull cursor wanted => exact hreading cursor.view
  | leave b raised => exact hdropping b

/-- The rows of a register, those of its open batch too, have a property. -/
structure Has (r : Register) (T : Table → Prop) : Prop where
  committed : T r.committed
  base : ∀ p, r.pending = some p → T p.base
  pending : ∀ p, r.pending = some p → T p.rows

variable {T : Table → Prop}

theorem Has.writing (h : r.Has T) {made : Pending → List Write}
    (hmade : ∀ p : Pending, T p.rows → T (p.rows.written (made p))) :
    (r.writing b made events).Has T := by
  unfold Register.writing
  cases hp : r.pending? b with
  | none => exact h
  | some p =>
    obtain ⟨hsome, -⟩ := pending?_eq_some_iff.1 hp
    refine ⟨h.committed, fun q hq => ?_, fun q hq => ?_⟩
    · cases hq
      rw [Pending.base_after]
      exact h.base p hsome
    · cases hq
      rw [Pending.rows_after]
      split
      · exact h.base p hsome
      · exact hmade p (h.pending p hsome)

theorem Has.editing (h : r.Has T) {change : Edit} (hchange : change.Keeps T) :
    (r.editing b change events).Has T :=
  h.writing fun _ hown => hchange _ _ hown (List.take_prefix _ _)

theorem Has.reading (h : r.Has T) (view : View) : (r.reading events view).Has T := by
  cases view with
  | committed => exact h
  | batch b => exact h.writing fun _ hown => hown

theorem Has.committing (h : r.Has T) : (r.committing b events).Has T := by
  unfold Register.committing
  cases hp : r.pending? b with
  | none => exact h
  | some p =>
    refine ⟨?_, nofun, nofun⟩
    show T (if _ then _ else _)
    split
    · exact h.pending p (pending?_eq_some_iff.1 hp).1
    · exact h.committed

theorem Has.dropping (h : r.Has T) : (r.dropping b).Has T := by
  unfold Register.dropping
  cases r.pending? b with
  | none => exact h
  | some p => exact ⟨h.committed, nofun, nofun⟩

/-- What the edits of a use keep is kept by the use. -/
theorem Has.after (h : r.Has T) {use : Use}
    (huse : ∀ b change, use = .call (.edit b change) → change.Keeps T) :
    (r.after events use).Has T := by
  cases use with
  | call made =>
    cases made with
    | openBatch wait =>
      show (r.opening events).Has T
      unfold Register.opening
      split
      · refine ⟨h.committed, fun p hp => ?_, fun p hp => ?_⟩ <;>
        · cases hp
          exact h.committed
      · exact h
    | edit b change => exact h.editing (huse b change rfl)
    | commit b => exact h.committing
    | discard b => exact h.dropping
  | newest view pairId => exact h.reading view
  | pull cursor wanted => exact h.reading cursor.view
  | leave b raised => exact h.dropping

end

end Register

namespace Store

/-- The calls of the engine that are made for a use, the last one first. -/
def eventsOf (s : Store) (use : Use) : List EngineEvent :=
  let trace := (s.perform use.step).2.trace
  trace.take (trace.length - s.trace.length)

/-- The register of a store after some uses. -/
def registerAfter (s : Store) (r : Register) : List Use → Register
  | [] => r
  | use :: rest => (s.perform use.step).2.registerAfter (r.after (s.eventsOf use) use) rest

/-- A store and its register agree. -/
structure Accords (s : Store) (r : Register) : Prop where
  guarded : s.Guarded
  committed : s.committed = r.committed
  count : s.batches.length = r.opened
  isOpen : ∀ b, s.isOpen b = (r.pending? b).isSome
  view : ∀ b p, r.pending? b = some p → s.viewOf b = p.rows
  base : ∀ p, r.pending = some p → p.base = r.committed

variable {s t : Store} {r : Register} {b : Nat}

theorem eventsOf_of_trace {use : Use} {events : List EngineEvent}
    (h : (s.perform use.step).2.trace = events ++ s.trace) : s.eventsOf use = events := by
  unfold eventsOf
  dsimp only
  rw [h, List.length_append, Nat.add_sub_cancel]
  exact List.take_left

theorem accords_starting (committed : Table) (plan : FaultPlan) :
    (starting committed plan).Accords (.starting committed) where
  guarded := guarded_starting committed plan
  committed := rfl
  count := rfl
  isOpen _ := rfl
  view _ _ := nofun
  base _ := nofun

namespace Accords

theorem withTrace (h : s.Accords r) (trace : List EngineEvent) : (s.withTrace trace).Accords r :=
  ⟨⟨h.guarded.once, h.guarded.locked⟩, h.committed, h.count, h.isOpen, h.view, h.base⟩

theorem pending_of_isOpen (h : s.Accords r) (hopen : s.isOpen b = true) :
    ∃ p, r.pending? b = some p := by
  rw [h.isOpen] at hopen
  exact Option.isSome_iff_exists.1 hopen

theorem pending_of_closed (h : s.Accords r) (hclosed : s.isOpen b = false) :
    r.pending? b = none := by
  rw [h.isOpen] at hclosed
  exact Option.isNone_iff_eq_none.1 (Option.isSome_eq_false_iff.1 hclosed)

/-- A batch has been opened. -/
theorem opened (h : s.Accords r) (hfree : s.locked = false) :
    s.withOpened.Accords
      { r with pending := some ⟨r.opened, r.committed, [], []⟩, opened := r.opened + 1 } where
  guarded := h.guarded.moves (.opens hfree rfl List.length_append (isOpen_withOpened s))
  committed := h.committed
  count := List.length_append.trans (congrArg (· + 1) h.count)
  isOpen c := by
    rw [isOpen_withOpened, h.guarded.closed hfree, Bool.false_or, h.count]
    by_cases hc : c = r.opened
    · simp [Register.pending?, hc]
    · simp [Register.pending?, hc, Ne.symm hc]
  view c p hp := by
    obtain ⟨hp, hc⟩ := Register.pending?_eq_some_iff.1 hp
    cases hp
    rw [← hc, ← h.count, viewOf_withOpened]
    exact h.committed
  base p hp := by
    cases hp
    rfl

/-- The open batch shows other rows, and so does the register. -/
theorem withView (h : s.Accords r) {p q : Pending} (hp : r.pending? b = some p)
    (hbatch : q.batch = p.batch) (hbase : q.base = p.base) :
    (s.withView b q.rows).Accords { r with pending := some q } where
  guarded := h.guarded.moves (.stays ((SameHandles.refl s).withView b _))
  committed := h.committed
  count := (List.length_modify _ _ _).trans h.count
  isOpen c := by
    rw [isOpen_withView, h.isOpen]
    obtain ⟨hsome, -⟩ := Register.pending?_eq_some_iff.1 hp
    unfold Register.pending?
    rw [hsome, Option.isSome_filter, Option.isSome_filter, Option.any_some, Option.any_some, hbatch]
  view c other hother := by
    obtain ⟨-, hb⟩ := Register.pending?_eq_some_iff.1 hp
    obtain ⟨hother, hc⟩ := Register.pending?_eq_some_iff.1 hother
    cases hother
    obtain rfl : c = b := hc.symm.trans (hbatch.trans hb)
    exact viewOf_withView (by rw [h.isOpen, hp]; rfl) _
  base other hother := by
    cases hother
    exact hbase.trans (h.base p (Register.pending?_eq_some_iff.1 hp).1)

/-- Some writes have been made in the open batch, and the engine may have undone them. -/
theorem written (h : s.Accords r) {p : Pending} (hp : r.pending? b = some p) (made : List Write)
    (events : List EngineEvent) :
    ((s.withView b ((s.viewOf b).written made)).undoneBy events (.batch b)).Accords
      { r with pending := some (p.after made events) } := by
  have hrows := h.withView hp (p.batch_after made events) (p.base_after made events)
  have hbase : p.base = s.committed :=
    (h.base p (Register.pending?_eq_some_iff.1 hp).1).trans h.committed.symm
  rw [p.rows_after made events] at hrows
  rw [undoneBy_withView, h.view b p hp, ← hbase]
  exact hrows

/-- What a batch shows that is not open is of no account. -/
theorem withView_of_closed (h : s.Accords r) (hp : r.pending? b = none) (view : Table) :
    (s.withView b view).Accords r where
  guarded := h.guarded.moves (.stays ((SameHandles.refl s).withView b _))
  committed := h.committed
  count := (List.length_modify _ _ _).trans h.count
  isOpen c := (isOpen_withView s b view c).trans (h.isOpen c)
  view c p hc := by
    by_cases heq : c = b
    · rw [heq, hp] at hc
      cases hc
    · exact (viewOf_withView_of_ne heq s view).trans (h.view c p hc)
  base := h.base

/-- A view has been read. -/
theorem consulted (h : s.Accords r) (events : List EngineEvent) (view : View) :
    (s.undoneBy events view).Accords (r.reading events view) := by
  cases view with
  | committed => exact h
  | batch b =>
    show (s.undoneBy events (.batch b)).Accords (r.writing b _ events)
    unfold Register.writing
    cases hp : r.pending? b with
    | none =>
      unfold undoneBy
      dsimp only
      split
      · exact h.withView_of_closed hp _
      · exact h
    | some p =>
      have hopen : s.isOpen b = true := by rw [h.isOpen, hp]; rfl
      have hwritten := h.written hp [] events
      rw [show (s.viewOf b).written [] = s.viewOf b from rfl, withView_viewOf hopen] at hwritten
      exact hwritten

end Accords

/-- A use is written down in the register of a store, with the calls that were made for it. -/
structure Noted (s : Store) (r : Register) (use : Use) (events : List EngineEvent) : Prop where
  trace : (s.perform use.step).2.trace = events ++ s.trace
  accords : (s.perform use.step).2.Accords (r.after events use)
  commit : ∀ event ∈ events, event.call = .commit →
    ∃ p, r.pending = some p ∧ use = .call (.commit p.batch)

namespace Accords

variable {use : Use}

/-- What only reads is written down with the calls made for it. -/
theorem noted_reading (h : s.Accords r) (view : View)
    (hrest : s.Consulted view (s.perform use.step).2)
    (hregister : ∀ events, r.after events use = r.reading events view) :
    ∃ events, s.Noted r use events := by
  obtain ⟨events, hevents, hafter⟩ := hrest
  refine ⟨events, ?_, ?_, fun event hevent hcall => ?_⟩
  · rw [hafter]
    rfl
  · rw [hafter, hregister]
    exact (h.consulted events view).withTrace _
  · exact absurd hcall (EngineCall.ne_of_isReading (hevents event hevent)).2

theorem noted_refused (h : s.Accords r) (hafter : (s.perform use.step).2 = s)
    (hregister : r.after [] use = r) : ∃ events, s.Noted r use events := by
  refine ⟨[], ?_, ?_, nofun⟩
  · rw [hafter]
    rfl
  · rw [hafter, hregister]
    exact h

theorem noted_openBatch (h : s.Accords r) (wait : Binary64) :
    ∃ events, s.Noted r (.call (.openBatch wait)) events := by
  have hguarded := h.guarded.moves (h.guarded.moves_use (.call (.openBatch wait)))
  have hafter : (s.perform (Use.call (.openBatch wait)).step).2 =
      (s.perform (openBatch wait)).2 := by
    show (s.perform (do let _ ← openBatch wait)).2 = _
    rw [perform_ignored]
  have hperform := perform_openBatch s wait
  by_cases hwait : waitTooLong wait = true
  · rw [if_pos hwait] at hperform
    exact h.noted_refused (by rw [hafter, hperform]) rfl
  rw [if_neg hwait] at hperform
  by_cases hlocked : s.locked = true
  · rw [if_pos hlocked] at hperform
    exact h.noted_refused (by rw [hafter, hperform]) rfl
  rw [if_neg hlocked] at hperform
  have hfree : s.locked = false := Bool.eq_false_iff.2 hlocked
  cases hopen : s.strike? .openSession with
  | some outage =>
    rw [hopen] at hperform
    have hsame : (s.perform (Use.call (.openBatch wait)).step).2 =
        s.withTrace (⟨.openSession, some outage⟩ :: s.trace) := by
      rw [hafter, hperform]
      unfold called
      rw [hopen, ← hfree]
      rfl
    refine ⟨[⟨.openSession, some outage⟩], ?_, ?_, by simp⟩
    · rw [hsame]
      rfl
    · rw [hsame]
      exact h.withTrace _
  | none =>
    rw [hopen] at hperform
    rw [hafter, hperform] at hguarded
    refine ⟨[⟨.openSession, none⟩], ?_, ?_, by simp⟩
    · rw [hafter, hperform]
      unfold called
      rw [hopen]
      rfl
    · rw [hafter, hperform]
      exact (h.withTrace _).opened hfree

theorem noted_edit (h : s.Accords r) (b : Nat) (change : Edit) :
    ∃ events, s.Noted r (.call (.edit b change)) events := by
  cases hopen : s.isOpen b with
  | false =>
    refine h.noted_refused (congrArg Prod.snd (perform_edit_closed hopen change)) ?_
    show r.editing b change [] = r
    unfold Register.editing Register.writing
    rw [h.pending_of_closed hopen]
  | true =>
    obtain ⟨p, hp⟩ := h.pending_of_isOpen hopen
    obtain ⟨events, made, hmade, hprefix, hafter⟩ := (makes_edit hopen change).made
    rw [h.view b p hp] at hprefix
    have hregister : r.after events (.call (.edit b change)) =
        { r with pending := some (p.after made events) } := by
      show r.editing b change events = _
      unfold Register.editing Register.writing
      rw [hp, hmade.1]
      dsimp only
      rw [← List.prefix_iff_eq_take.1 hprefix]
    refine ⟨events, ?_, ?_, fun event hevent hcall => absurd hcall (hmade.2 event hevent)⟩
    · exact congrArg Store.trace hafter
    · rw [hregister]
      exact hafter ▸ (h.written hp made events).withTrace _

/-- A use that ends the open batch is written down, with the rows that are committed after it. -/
theorem noted_ends (h : s.Accords r) {step : StoreM Unit} {events : List EngineEvent}
    (rows : Table) (hopen : s.isOpen b = true) (hends : s.Ends b step)
    (hsame : (s.perform use.step).2 = (s.perform step).2)
    (htrace : (s.perform step).2.trace = events ++ s.trace)
    (hrows : (s.perform step).2.committed = rows)
    (hregister : r.after events use = { r with pending := none, committed := rows })
    (hcommit : ∀ event ∈ events, event.call = .commit →
      ∃ p, r.pending = some p ∧ use = .call (.commit p.batch)) : s.Noted r use events := by
  have hguarded := h.guarded.moves (h.guarded.moves_use use)
  rw [hsame] at hguarded
  refine ⟨hsame ▸ htrace, ?_, hcommit⟩
  rw [hsame, hregister]
  refine ⟨hguarded, hrows, hends.count.trans h.count, fun c => ?_, fun _ _ => nofun, fun _ => nofun⟩
  rw [hends.isOpen]
  by_cases hc : s.isOpen c = true
  · rw [h.guarded.once c b hc hopen, bne_self_eq_false, Bool.and_false]
    rfl
  · rw [Bool.eq_false_iff.2 hc, Bool.false_and]
    rfl

theorem noted_commit (h : s.Accords r) (b : Nat) :
    ∃ events, s.Noted r (.call (.commit b)) events := by
  cases hopen : s.isOpen b with
  | false =>
    refine h.noted_refused (congrArg Prod.snd (perform_commit_closed hopen)) ?_
    show r.committing b [] = r
    unfold Register.committing
    rw [h.pending_of_closed hopen]
  | true =>
    obtain ⟨p, hp⟩ := h.pending_of_isOpen hopen
    obtain ⟨hsome, rfl⟩ := Register.pending?_eq_some_iff.1 hp
    have hends := ends_commit hopen (h.guarded.locked.2 ⟨_, hopen⟩)
    have hregister : ∀ events, r.committing p.batch events =
        { r with
          pending := none
          committed := if ⟨.commit, none⟩ ∈ events then p.rows else r.committed } := by
      intro events
      unfold Register.committing
      rw [hp]
    have hperform := perform_commit hopen
    cases hcommit : s.strike? .commit with
    | none =>
      rw [hcommit] at hperform
      dsimp only at hperform
      rw [perform_close] at hperform
      have hafter := congrArg Prod.snd hperform
      let u := (s.called .commit).withCommitted p.batch
      refine ⟨[⟨.closeSession, u.strike? .closeSession⟩, ⟨.commit, none⟩],
        h.noted_ends p.rows hopen hends rfl ?_ ?_ ?_ fun _ _ _ => ⟨p, hsome, rfl⟩⟩
      · rw [← hcommit]
        exact congrArg Store.trace hafter
      · exact (congrArg Store.committed hafter).trans (h.view p.batch p hp)
      · exact (hregister _).trans (by simp)
    | some outage =>
      rw [hcommit] at hperform
      dsimp only at hperform
      rw [perform_close] at hperform
      have hafter := congrArg Prod.snd hperform
      let u := s.called .commit
      refine ⟨[⟨.closeSession, (u.called .rollback).strike? .closeSession⟩,
          ⟨.rollback, u.strike? .rollback⟩, ⟨.commit, some outage⟩],
        h.noted_ends r.committed hopen hends rfl ?_ ?_ ?_ fun _ _ _ => ⟨p, hsome, rfl⟩⟩
      · rw [← hcommit]
        exact congrArg Store.trace hafter
      · exact (congrArg Store.committed hafter).trans h.committed
      · exact (hregister _).trans (by simp)

/-- What discards a batch, unless it has ended, makes the register forget it. -/
theorem noted_drop (h : s.Accords r) (b : Nat)
    (hdiscard : s.isOpen b = true → (s.perform use.step).2 = (s.perform (discard b)).2)
    (hrefuse : s.isOpen b = false → (s.perform use.step).2 = s)
    (hregister : ∀ events, r.after events use = r.dropping b) : ∃ events, s.Noted r use events := by
  cases hopen : s.isOpen b with
  | false =>
    refine h.noted_refused (hrefuse hopen) ((hregister []).trans ?_)
    unfold Register.dropping
    rw [h.pending_of_closed hopen]
  | true =>
    obtain ⟨p, hp⟩ := h.pending_of_isOpen hopen
    have hends := ends_discard hopen (h.guarded.locked.2 ⟨b, hopen⟩)
    have hperform := perform_discard hopen
    rw [perform_close] at hperform
    have hafter := congrArg Prod.snd hperform
    refine ⟨[⟨.closeSession, (s.called .rollback).strike? .closeSession⟩,
        ⟨.rollback, s.strike? .rollback⟩],
      h.noted_ends r.committed hopen hends (hdiscard hopen) ?_ ?_ ?_ ?_⟩
    · exact congrArg Store.trace hafter
    · exact (congrArg Store.committed hafter).trans h.committed
    · refine (hregister _).trans ?_
      unfold Register.dropping
      rw [hp]
    · simp

/-- Every use of a store is written down in its register. -/
theorem noted (h : s.Accords r) (use : Use) : ∃ events, s.Noted r use events := by
  cases use with
  | call made =>
    cases made with
    | openBatch wait => exact h.noted_openBatch wait
    | edit b change => exact h.noted_edit b change
    | commit b => exact h.noted_commit b
    | discard b =>
      refine h.noted_drop b (fun _ => rfl) (fun hclosed => ?_) fun _ => rfl
      exact congrArg Prod.snd (perform_discard_closed hclosed)
  | newest view pairId =>
    refine h.noted_reading view ?_ fun _ => rfl
    show s.Consulted view (s.perform (do let _ ← Store.newest view pairId)).2
    rw [perform_ignored]
    exact ((untouched_consulted s view).newest pairId s (.refl s view)).1
  | pull cursor wanted =>
    refine h.noted_reading cursor.view ?_ fun _ => rfl
    show s.Consulted cursor.view (s.perform (do let _ ← Cursor.settled (cursor.pull wanted))).2
    rw [perform_ignored]
    exact ((untouched_consulted s cursor.view).pull rfl wanted s (.refl s cursor.view)).1
  | leave b raised =>
    refine h.noted_drop b (fun hopen => ?_) (fun hclosed => ?_) fun _ => rfl
    · rw [perform_leave_block, if_pos hopen]
    · rw [perform_leave_block, hclosed]
      rfl

/-- A store and its register agree after every use. -/
theorem step (h : s.Accords r) (use : Use) :
    (s.perform use.step).2.Accords (r.after (s.eventsOf use) use) := by
  obtain ⟨events, hnoted⟩ := h.noted use
  rw [eventsOf_of_trace hnoted.trace]
  exact hnoted.accords

theorem afterUses (h : s.Accords r) (uses : List Use) :
    (s.afterUses uses).Accords (s.registerAfter r uses) := by
  induction uses generalizing s r with
  | nil => exact h
  | cons use rest ih => exact ih (h.step use)

end Accords

namespace Noted

variable {use : Use} {events : List EngineEvent}

end Noted

/-- The two rows of an observation were written, but neither the commit nor the rollback passed. -/
example :
    let s := (starting .empty fun _ call =>
      if call = .commit ∨ call = .rollback then some ⟨"disk full", false⟩ else none).afterUses
        [.call (.openBatch ⟨0⟩), .call (.edit 0 (.save early)), .call (.commit 0)]
    s.committed.rows = [] ∧ (s.viewOf 0).rows.length = 2 :=
  ⟨rfl, rfl⟩

end Store

end RateLedger
