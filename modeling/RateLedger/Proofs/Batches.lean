import RateLedger.Proofs.Edits

/-!
# How batches begin and end

Opening, committing and discarding a batch call the engine a known number of times in a known order,
so what they give and leave is written out call by call: for every plan of faults, and the lock is
free in the end whichever of the calls fail. With a reliable engine little of it is left.
-/

namespace RateLedger.Store

/-- The failure that a call of the engine would have now. -/
def strike? (s : Store) (call : EngineCall) : Option Outage := s.plan s.trace.length call

/-- The store after a call of the engine. -/
def called (s : Store) (call : EngineCall) : Store :=
  s.withTrace (⟨call, s.strike? call⟩ :: s.trace)

@[simp] theorem trace_called (s : Store) (call : EngineCall) :
    (s.called call).trace = ⟨call, s.strike? call⟩ :: s.trace := rfl

/-- The store after some calls made for a view: if one of them undid what its batch had written, the
batch sees the committed table again. -/
def undoneBy (s : Store) (events : List EngineEvent) : View → Store
  | .committed => s
  | .batch b => if events.any (·.undoes) then s.withView b s.committed else s

/-- The store after a call of the engine that is made for a view. -/
def asked (s : Store) (view : View) (call : EngineCall) : Store :=
  match view with
  | .committed => s.called call
  | .batch b => (s.called call).settled b (s.strike? call)

/-- What a call of the engine gives. -/
def answer (s : Store) (call : EngineCall) (wrap : String → StoreFault) : Except StoreFault Unit :=
  match s.strike? call with
  | some outage => .error (wrap outage.cause)
  | none => .ok ⟨⟩

/-- What ending a batch gives: the engine may fail, and the lock has to be held. -/
def ending (s : Store) : Except StoreFault Unit :=
  if s.locked then s.answer .closeSession .engine else .error .lockFree

/-- The store with a batch on the committed table, and the lock taken. -/
def withOpened (s : Store) : Store :=
  { s with locked := true, batches := s.batches ++ [⟨s.committed, true⟩] }

/-- The store in which a batch has ended, and the lock is free. -/
def withEnded (s : Store) (b : Nat) : Store := { s.withClosed b with locked := false }

/-- The store in which the view of a batch is the committed table. -/
def withCommitted (s : Store) (b : Nat) : Store := { s with committed := s.viewOf b }

section

variable {s : Store} {b : Nat}

theorem IsReliable.strike? (h : s.IsReliable) (call : EngineCall) : s.strike? call = none :=
  h _ call

theorem perform_call (s : Store) (call : EngineCall) (wrap : String → StoreFault) :
    s.perform (engine call wrap) = (s.answer call wrap, s.called call) :=
  perform_engine s call wrap

theorem perform_callFor (s : Store) (b : Nat) (call : EngineCall) (wrap : String → StoreFault) :
    s.perform (engineFor b call wrap) =
      (s.answer call wrap, (s.called call).settled b (s.strike? call)) := by
  rw [perform_engineFor, perform_call]
  rfl

/-- What calls for a view undo is undone once, however many of them there are. -/
theorem asked_undoneBy (s : Store) (view : View) (call : EngineCall) (events : List EngineEvent) :
    let t := (s.undoneBy events view).withTrace (events ++ s.trace)
    t.asked view call = (s.undoneBy (⟨call, t.strike? call⟩ :: events) view).withTrace
      (⟨call, t.strike? call⟩ :: events ++ s.trace) := by
  intro t
  unfold asked
  cases view with
  | committed => rfl
  | batch b =>
    dsimp only
    unfold called
    generalize t.strike? call = outage
    have hundoes : EngineEvent.undoes ⟨call, outage⟩ = outage.any (·.undoes) := rfl
    unfold settled undoneBy
    rw [List.any_cons, hundoes]
    cases outage.any (·.undoes) with
    | false => rfl
    | true =>
      unfold t undoneBy
      cases events.any (·.undoes) with
      | false => rfl
      | true =>
        show ((s.withView b s.committed).withView b s.committed).withTrace _ = _
        rw [withView_withView]
        rfl

/-- What a batch was given to see, it sees unless that was undone. -/
theorem undoneBy_withView (s : Store) (b : Nat) (view : Table) (events : List EngineEvent) :
    (s.withView b view).undoneBy events (.batch b) =
      s.withView b (if events.any (·.undoes) then s.committed else view) := by
  unfold undoneBy
  dsimp only
  split
  · exact withView_withView s b view s.committed
  · rfl

theorem perform_openBatch (s : Store) (wait : Binary64) :
    s.perform (openBatch wait) =
      if waitTooLong wait then (.error .waitTooLong, s)
      else if s.locked then (.error .batchOpen, s)
      else
        match s.strike? .openSession with
        | some outage =>
          (.error (.engine outage.cause), { s.called .openSession with locked := false })
        | none => (.ok s.batches.length, (s.called .openSession).withOpened) := by
  unfold openBatch
  rw [perform_bind, perform_acquire]
  by_cases hwait : waitTooLong wait = true
  · rw [if_pos hwait, if_pos hwait]
  · rw [if_neg hwait, if_neg hwait]
    by_cases hlocked : s.locked = true
    · rw [if_pos hlocked, if_pos hlocked]
    · rw [if_neg hlocked, if_neg hlocked]
      dsimp only
      rw [perform_bind, perform_onFault, perform_call]
      have hstrike : ({ s with locked := true } : Store).strike? .openSession =
          s.strike? .openSession := rfl
      unfold answer called
      rw [hstrike]
      cases s.strike? .openSession with
      | some outage => rfl
      | none => rfl

/-- The lock is given back if it is held, and refused if it is free. -/
theorem perform_release (s : Store) :
    s.perform release =
      (if s.locked then .ok ⟨⟩ else .error .lockFree, { s with locked := false }) := by
  unfold release
  rw [perform_bind, perform_get]
  dsimp only
  cases hlocked : s.locked with
  | true => rfl
  | false =>
    show (Except.error StoreFault.lockFree, s) =
      (Except.error StoreFault.lockFree, { s with locked := false })
    rw [← hlocked]

theorem ending_of_locked (h : s.locked = true) : s.ending = s.answer .closeSession .engine :=
  if_pos h

theorem perform_close (s : Store) (b : Nat) :
    s.perform (close b) = (s.ending, (s.called .closeSession).withEnded b) := by
  unfold close
  rw [perform_bind, perform_modify]
  dsimp only
  rw [perform_ensuring, perform_call]
  dsimp only
  rw [perform_release]
  unfold ending
  show ((if s.locked = true then Except.ok PUnit.unit else _).bind fun _ =>
    s.answer .closeSession .engine, _) = _
  cases s.locked with
  | true => rfl
  | false => rfl

/-- A batch that is not open refuses everything that checks it first. -/
theorem perform_checkOpen_closed (h : s.isOpen b = false) (next : Unit → StoreM α) :
    s.perform (checkOpen b >>= next) = (.error .batchClosed, s) := by
  unfold checkOpen
  rw [perform_bind, perform_bind, perform_get]
  dsimp only
  rw [h]
  rfl

theorem perform_commit (h : s.isOpen b = true) :
    s.perform (commit b) =
      match s.strike? .commit with
      | none => ((s.called .commit).withCommitted b).perform (close b)
      | some outage =>
        let t := (s.called .commit).withNote .warning "db.store" "Batch commit failed, rolling back"
        (((t.called .rollback).perform (close b)).1.bind fun _ =>
          (t.answer .rollback (.failed .rollback)).bind fun _ =>
            .error (.failed .commit outage.cause),
          ((t.called .rollback).perform (close b)).2) := by
  unfold commit checkOpen
  rw [perform_bind, perform_bind, perform_get]
  dsimp only
  rw [h]
  show s.perform (ensuring _ _) = _
  rw [perform_ensuring, perform_onFault]
  unfold commitView
  rw [perform_bind, perform_call]
  unfold answer
  cases s.strike? .commit with
  | none =>
    dsimp only
    rw [perform_modify]
    show ((((s.called .commit).withCommitted b).perform (close b)).1.bind fun _ =>
      Except.ok PUnit.unit, (((s.called .commit).withCommitted b).perform (close b)).2) = _
    rcases ((s.called .commit).withCommitted b).perform (close b) with ⟨_ | _, t⟩
    · rfl
    · rfl
  | some outage =>
    dsimp only
    rw [show (StoreFault.failed Activity.commit outage.cause).isBackend = true from rfl, if_pos rfl,
      perform_bind]
    unfold note rollback
    rw [perform_modify]
    dsimp only
    rw [perform_call]
    rfl

/-- A commit that the engine lets pass commits what the batch sees, whatever fails after it. -/
theorem committed_of_passed (h : s.strike? .commit = none) (hopen : s.isOpen b = true) :
    (s.perform (commit b)).2.committed = s.viewOf b := by
  rw [perform_commit hopen, h]
  dsimp only
  rw [perform_close]
  rfl

theorem perform_commit_closed (h : s.isOpen b = false) :
    s.perform (commit b) = (.error .batchClosed, s) :=
  perform_checkOpen_closed h _

theorem perform_discard (h : s.isOpen b = true) :
    s.perform (discard b) =
      (((s.called .rollback).perform (close b)).1.bind fun _ =>
        s.answer .rollback (.failed .rollback),
        ((s.called .rollback).perform (close b)).2) := by
  unfold discard checkOpen
  rw [perform_bind, perform_bind, perform_get]
  dsimp only
  rw [h]
  show s.perform (ensuring _ _) = _
  rw [perform_ensuring]
  unfold rollback
  rw [perform_call]

theorem perform_discard_closed (h : s.isOpen b = false) :
    s.perform (discard b) = (.error .batchClosed, s) :=
  perform_checkOpen_closed h _

theorem IsReliable.answer (h : s.IsReliable) (call : EngineCall) (wrap : String → StoreFault) :
    s.answer call wrap = .ok ⟨⟩ := by
  unfold Store.answer
  rw [h.strike?]

theorem IsReliable.ending (h : s.IsReliable) (hlocked : s.locked = true) : s.ending = .ok ⟨⟩ :=
  (ending_of_locked hlocked).trans (h.answer _ _)

/-- With a reliable engine the commit of an open batch ends well. -/
theorem IsReliable.perform_commit (h : s.IsReliable) (hopen : s.isOpen b = true)
    (hlocked : s.locked = true) :
    ∃ trace, s.perform (commit b) =
      (.ok ⟨⟩, ((s.withCommitted b).withEnded b).withTrace trace) := by
  rw [Store.perform_commit hopen, h.strike?]
  dsimp only
  rw [perform_close]
  exact ⟨_, Prod.ext (IsReliable.ending (s := (s.called .commit).withCommitted b) h hlocked) rfl⟩

theorem IsReliable.perform_discard (h : s.IsReliable) (hopen : s.isOpen b = true)
    (hlocked : s.locked = true) :
    ∃ trace, s.perform (discard b) = (.ok ⟨⟩, (s.withEnded b).withTrace trace) := by
  rw [Store.perform_discard hopen, perform_close, h.answer,
    IsReliable.ending (s := s.called .rollback) h hlocked]
  exact ⟨_, rfl⟩

theorem isOpen_withOpened (s : Store) (c : Nat) :
    s.withOpened.isOpen c = (s.isOpen c || c == s.batches.length) := by
  unfold isOpen withOpened
  rw [List.getElem?_append]
  rcases Nat.lt_trichotomy c s.batches.length with hlt | rfl | hgt
  · have hne : c ≠ s.batches.length := Nat.ne_of_lt hlt
    simp [hlt, hne]
  · simp
  · have hne : c ≠ s.batches.length := Nat.ne_of_gt hgt
    have hpos : c - s.batches.length ≠ 0 := by omega
    simp [Nat.not_lt_of_gt hgt, hne, hpos]

theorem viewOf_withOpened (s : Store) : s.withOpened.viewOf s.batches.length = s.committed := by
  unfold viewOf withOpened
  simp

theorem isOpen_withEnded (s : Store) (b c : Nat) :
    (s.withEnded b).isOpen c = (s.isOpen c && c != b) := by
  unfold isOpen withEnded withClosed
  rw [List.getElem?_modify]
  by_cases h : b = c
  · subst h
    cases s.batches[b]? <;> simp
  · simp [h, Ne.symm h]

/-- A batch that was open has ended after its commit, however the commit went. -/
theorem isOpen_of_commit (h : s.isOpen b = true) : (s.perform (commit b)).2.isOpen b = false := by
  rw [perform_commit h]
  cases s.strike? .commit with
  | none =>
    dsimp only
    rw [perform_close, isOpen_withEnded, bne_self_eq_false, Bool.and_false]
  | some outage =>
    dsimp only
    rw [perform_close, isOpen_withEnded, bne_self_eq_false, Bool.and_false]

theorem perform_leave (s : Store) (b : Nat) :
    s.perform (leave b) = if s.isOpen b then s.perform (discard b) else (.ok ⟨⟩, s) := by
  unfold leave
  rw [perform_bind, perform_get]
  dsimp only
  cases s.isOpen b with
  | true => rfl
  | false => rfl

/-- What is done in a batch of its own, if no other batch is open. -/
theorem perform_withBatch (hfree : s.locked = false) {wait : Binary64}
    (hwait : waitTooLong wait = false) (body : Nat → StoreM α) :
    s.perform (withBatch wait body) =
      match s.strike? .openSession with
      | some outage =>
        (.error (.engine outage.cause), { s.called .openSession with locked := false })
      | none => (s.called .openSession).withOpened.perform
          (ensuring (body s.batches.length) (leave s.batches.length)) := by
  unfold withBatch
  rw [perform_bind, perform_openBatch, hwait, hfree]
  cases s.strike? .openSession <;> rfl

end

end RateLedger.Store
