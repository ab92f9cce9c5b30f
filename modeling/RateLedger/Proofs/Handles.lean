import RateLedger.Proofs.EditingSteps

/-!
# One batch at a time

A store may be used in any order, through any batch that was ever opened on it, while its engine
fails wherever it likes. Most steps leave the lock alone and neither open nor end a batch
(`Quiet`). Opening a batch takes the lock, or leaves it as it was. Whatever ends a batch gives the
lock back, on every way through it (`Ends`). So at every moment the lock is held exactly while a
batch is open, and it is never given back twice: a lock that is free would refuse it.
-/

namespace RateLedger

/-- A use of a store or of a batch: a call, a read through any view, or the end of a block that was
entered with a batch, which an exception may have been raised in. -/
inductive Use
  | call (call : Call)
  | newest (view : View) (pairId : String)
  | pull (cursor : Cursor) (wanted : Option Nat)
  | leave (b : Nat) (raised : Option StoreFault)

/-- What a block gives that an exception may have been raised in. -/
def blockOf : Option StoreFault → Except StoreFault Unit
  | none => .ok ⟨⟩
  | some fault => .error fault

/-- The step of a use. -/
def Use.step : Use → StoreM Unit
  | .call made => made.step
  | .newest view pairId => do let _ ← Store.newest view pairId
  | .pull cursor wanted => do let _ ← Cursor.settled (cursor.pull wanted)
  | .leave b raised => Store.ensuring (ExceptT.mk (pure (blockOf raised))) (Store.leave b)

namespace Store

/-- A store with some rows, before it is used. -/
def starting (committed : Table) (plan : FaultPlan) : Store := { fresh with committed, plan }

/-- The store after some uses, each of which may be refused or fail. -/
def afterUses (s : Store) (uses : List Use) : Store :=
  uses.foldl (fun s use => (s.perform use.step).2) s

/-- A store has its lock and its open batches from another one. -/
structure SameHandles (s t : Store) : Prop where
  locked : t.locked = s.locked
  count : t.batches.length = s.batches.length
  isOpen : ∀ b, t.isOpen b = s.isOpen b

/-- A step that leaves the lock and the handles alone. -/
abbrev Quiet (step : StoreM α) : Prop := ∀ s : Store, Keeps s.SameHandles (· ≠ .lockFree) step

/-! ## Steps that leave the lock alone -/

section

variable {s t : Store} {b : Nat} {view : View}

theorem SameHandles.withTrace (h : s.SameHandles t) (trace : List EngineEvent) :
    s.SameHandles (t.withTrace trace) :=
  ⟨h.locked, h.count, h.isOpen⟩

theorem SameHandles.withView (h : s.SameHandles t) (b : Nat) (table : Table) :
    s.SameHandles (t.withView b table) where
  locked := h.locked
  count := (List.length_modify _ _ _).trans h.count
  isOpen c := (isOpen_withView t b table c).trans (h.isOpen c)

/-- The lock and the handles are none of the business of a step that reads or edits. -/
theorem unmoved_handles (s : Store) : Unmoved s.SameHandles (· ≠ .lockFree) where
  call _ _ _ hs := hs.withTrace _
  fault _ h := by
    rintro rfl
    cases h
  write _ hs := hs.withTrace _
  withView _ b table hs := hs.withView b table

theorem quiet_newest (view : View) (pairId : String) : Quiet (newest view pairId) :=
  fun s => ((unmoved_handles s).untouched view).newest pairId

theorem quiet_pull (cursor : Cursor) (wanted : Option Nat) :
    Quiet (Cursor.settled (cursor.pull wanted)) :=
  fun s => ((unmoved_handles s).untouched cursor.view).pull rfl wanted

theorem quiet_edit (b : Nat) (change : Edit) : Quiet (change.step b) := by
  cases change with
  | save x => exact fun s => (unmoved_handles s).save b x
  | delete pairId seconds => exact fun s => (unmoved_handles s).delete b pairId fun _ => nofun

/-! ## Steps that end a batch -/

/-- A step that ends a batch, and gives the lock back while it is held. -/
structure Ends (s : Store) (b : Nat) (step : StoreM α) : Prop where
  free : (s.perform step).2.locked = false
  count : (s.perform step).2.batches.length = s.batches.length
  isOpen : ∀ c, (s.perform step).2.isOpen c = (s.isOpen c && c != b)
  fault : (s.perform step).1 ≠ .error .lockFree

theorem answer_ne_lockFree (s : Store) (call : EngineCall) {wrap : String → StoreFault}
    (h : ∀ cause, wrap cause ≠ .lockFree) : s.answer call wrap ≠ .error .lockFree := by
  unfold answer
  cases s.strike? call with
  | none => nofun
  | some outage => exact fun heq => h outage.cause (Except.error.inj heq)

theorem of_bind_lockFree {first : Except StoreFault Unit} {second : Except StoreFault α}
    (hfirst : first ≠ .error .lockFree) (h : (first.bind fun _ => second) = .error .lockFree) :
    second = .error .lockFree := by
  cases first with
  | ok _ => exact h
  | error fault =>
    cases h
    exact absurd rfl hfirst

/-- Closing a batch gives the lock back also where the engine fails to close the session. -/
theorem ends_close (h : s.locked = true) (b : Nat) : s.Ends b (close b) := by
  have hfault : s.ending ≠ .error .lockFree := by
    rw [ending_of_locked h]
    exact answer_ne_lockFree s _ fun _ => nofun
  constructor <;> rw [perform_close]
  · rfl
  · exact List.length_modify _ _ _
  · exact isOpen_withEnded _ b
  · exact hfault

/-- A step ends a batch if it closes it, whatever the faults before and the answer are. -/
theorem Ends.of_close {u : Store} {step : StoreM α} {answer : Except StoreFault α}
    (hclose : u.Ends b (close b)) (hsame : s.SameHandles u)
    (hanswer : answer ≠ .error .lockFree)
    (h : s.perform step = ((u.perform (close b)).1.bind fun _ => answer, (u.perform (close b)).2)) :
    s.Ends b step := by
  constructor <;> rw [h]
  · exact hclose.free
  · exact hclose.count.trans hsame.count
  · intro c
    rw [hclose.isOpen, hsame.isOpen]
  · exact mt (of_bind_lockFree hclose.fault) hanswer

theorem SameHandles.refl (s : Store) : s.SameHandles s := ⟨rfl, rfl, fun _ => rfl⟩

theorem ends_discard (hopen : s.isOpen b = true) (h : s.locked = true) : s.Ends b (discard b) := by
  refine .of_close (ends_close ?_ b) ?_ ?_ (perform_discard hopen)
  · exact h
  · exact (SameHandles.refl s).withTrace _
  · exact answer_ne_lockFree s _ fun _ => nofun

/-- A commit ends its batch also where it fails, and where the rollback after it fails as well. -/
theorem ends_commit (hopen : s.isOpen b = true) (h : s.locked = true) : s.Ends b (commit b) := by
  have hperform := perform_commit hopen
  cases hcommit : s.strike? .commit with
  | none =>
    rw [hcommit] at hperform
    dsimp only at hperform
    have hclose := ends_close (s := (s.called .commit).withCommitted b) h b
    constructor <;> rw [hperform]
    · exact hclose.free
    · exact hclose.count
    · exact hclose.isOpen
    · exact hclose.fault
  | some cause =>
    rw [hcommit] at hperform
    dsimp only at hperform
    refine .of_close (ends_close ?_ b) ?_ ?_ hperform
    · exact h
    · exact ⟨rfl, rfl, fun _ => rfl⟩
    · exact mt (of_bind_lockFree (answer_ne_lockFree _ _ fun _ => nofun)) nofun

end

/-! ## The lock -/

/-- At most one batch is open, and the lock is held while one is. -/
structure Guarded (s : Store) : Prop where
  once : ∀ b c, s.isOpen b = true → s.isOpen c = true → b = c
  locked : s.locked = true ↔ ∃ b, s.isOpen b = true

/-- What a use can do to the lock and to the batches. -/
inductive Moves (s t : Store) : Prop
  | stays (same : s.SameHandles t)
  | opens (free : s.locked = false) (locked : t.locked = true)
    (count : t.batches.length = s.batches.length + 1)
    (isOpen : ∀ c, t.isOpen c = (s.isOpen c || c == s.batches.length))
  | ends (b : Nat) (opened : s.isOpen b = true) (free : t.locked = false)
    (count : t.batches.length = s.batches.length)
    (isOpen : ∀ c, t.isOpen c = (s.isOpen c && c != b))

section

variable {s t : Store}

theorem guarded_starting (committed : Table) (plan : FaultPlan) :
    (starting committed plan).Guarded where
  once _ _ h _ := nomatch h
  locked := ⟨nofun, fun ⟨_, h⟩ => nomatch h⟩

/-- No batch is open while the lock is free. -/
theorem Guarded.closed (h : s.Guarded) (hfree : s.locked = false) (b : Nat) :
    s.isOpen b = false := by
  refine Bool.eq_false_iff.2 fun hopen => ?_
  exact Bool.false_ne_true (hfree.symm.trans (h.locked.2 ⟨b, hopen⟩))

/-- The lock and the batches move together. -/
theorem Guarded.moves (h : s.Guarded) (hmoves : s.Moves t) : t.Guarded := by
  cases hmoves with
  | stays same =>
    refine ⟨fun b c => ?_, ?_⟩
    · rw [same.isOpen, same.isOpen]
      exact h.once b c
    · simp only [same.locked, same.isOpen]
      exact h.locked
  | opens free locked count isOpen =>
    -- No batch was open before, so the new one is the only one.
    have hnew : ∀ c, t.isOpen c = true → c = s.batches.length := by
      intro c hc
      rw [isOpen, h.closed free, Bool.false_or] at hc
      exact eq_of_beq hc
    refine ⟨fun b c hb hc => (hnew b hb).trans (hnew c hc).symm, fun _ => ?_, fun _ => locked⟩
    refine ⟨s.batches.length, ?_⟩
    rw [isOpen, beq_self_eq_true, Bool.or_true]
  | ends b opened free count isOpen =>
    have hnone : ∀ c, t.isOpen c = false := by
      intro c
      rw [isOpen]
      by_cases hc : c = b
      · rw [hc, bne_self_eq_false, Bool.and_false]
      · have hclosed : s.isOpen c = false :=
          Bool.eq_false_iff.2 fun hopen => hc (h.once c b hopen opened)
        rw [hclosed, Bool.false_and]
    refine ⟨fun c d hc => ?_, fun hlocked => ?_, fun ⟨c, hc⟩ => ?_⟩
    · exact absurd ((hnone c).symm.trans hc) Bool.false_ne_true
    · exact absurd (free.symm.trans hlocked) Bool.false_ne_true
    · exact absurd ((hnone c).symm.trans hc) Bool.false_ne_true

theorem perform_ignored (s : Store) (step : StoreM α) :
    s.perform (do let _ ← step) = ((s.perform step).1.map fun _ => ⟨⟩, (s.perform step).2) := by
  rw [perform_bind]
  rcases s.perform step with ⟨_ | _, t⟩
  · rfl
  · rfl

/-- A step that moves the lock and the batches together, and does not give back a free lock. -/
structure Orderly (s : Store) (step : StoreM α) : Prop where
  moves : s.Moves (s.perform step).2
  fault : (s.perform step).1 ≠ .error .lockFree

theorem Quiet.orderly {step : StoreM α} (h : Quiet step) (s : Store) : s.Orderly step :=
  have hkeeps := h s s (.refl s)
  ⟨.stays hkeeps.1, fun heq => hkeeps.2 _ heq rfl⟩

theorem Ends.orderly {step : StoreM α} {b : Nat} (h : s.Ends b step) (hopen : s.isOpen b = true) :
    s.Orderly step :=
  ⟨.ends b hopen h.free h.count h.isOpen, h.fault⟩

theorem Orderly.ignored {step : StoreM α} (h : s.Orderly step) :
    s.Orderly (do let _ ← step) := by
  constructor <;> rw [perform_ignored]
  · exact h.moves
  · cases hanswer : (s.perform step).1 with
    | ok a => nofun
    | error fault =>
      rintro ⟨⟩
      exact h.fault hanswer

theorem orderly_openBatch (s : Store) (wait : Binary64) : s.Orderly (openBatch wait) := by
  have hperform := perform_openBatch s wait
  by_cases hwait : waitTooLong wait = true
  · rw [if_pos hwait] at hperform
    exact ⟨hperform ▸ .stays (.refl s), hperform ▸ nofun⟩
  rw [if_neg hwait] at hperform
  by_cases hlocked : s.locked = true
  · rw [if_pos hlocked] at hperform
    exact ⟨hperform ▸ .stays (.refl s), hperform ▸ nofun⟩
  rw [if_neg hlocked] at hperform
  have hfree : s.locked = false := Bool.eq_false_iff.2 hlocked
  cases hopen : s.strike? .openSession with
  | some cause =>
    rw [hopen] at hperform
    exact ⟨hperform ▸ .stays ⟨hfree.symm, rfl, fun _ => rfl⟩, hperform ▸ nofun⟩
  | none =>
    rw [hopen] at hperform
    exact ⟨hperform ▸ .opens hfree rfl List.length_append (isOpen_withOpened _),
      hperform ▸ nofun⟩

theorem Guarded.orderly_commit (h : s.Guarded) (b : Nat) : s.Orderly (commit b) := by
  cases hopen : s.isOpen b with
  | true => exact (ends_commit hopen (h.locked.2 ⟨b, hopen⟩)).orderly hopen
  | false =>
    have hperform := perform_commit_closed hopen
    exact ⟨hperform ▸ .stays (.refl s), hperform ▸ nofun⟩

theorem Guarded.orderly_discard (h : s.Guarded) (b : Nat) : s.Orderly (discard b) := by
  cases hopen : s.isOpen b with
  | true => exact (ends_discard hopen (h.locked.2 ⟨b, hopen⟩)).orderly hopen
  | false =>
    have hperform := perform_discard_closed hopen
    exact ⟨hperform ▸ .stays (.refl s), hperform ▸ nofun⟩

theorem Guarded.orderly_call (h : s.Guarded) (call : Call) : s.Orderly call.step := by
  cases call with
  | openBatch wait => exact (orderly_openBatch s wait).ignored
  | edit b change => exact (quiet_edit b change).orderly s
  | commit b => exact h.orderly_commit b
  | discard b => exact h.orderly_discard b

/-- The end of a block discards its batch unless it has ended, and passes an exception on unless
that fails itself. -/
theorem perform_leave_block (s : Store) (b : Nat) (raised : Option StoreFault) :
    s.perform (Use.leave b raised).step =
      if s.isOpen b then
        ((s.perform (discard b)).1.bind fun _ => blockOf raised, (s.perform (discard b)).2)
      else (blockOf raised, s) := by
  show (((s.perform (leave b)).1.bind fun _ => blockOf raised), (s.perform (leave b)).2) = _
  rw [perform_leave]
  cases s.isOpen b with
  | true => rfl
  | false => rfl

theorem Guarded.moves_use (h : s.Guarded) (use : Use) : s.Moves (s.perform use.step).2 := by
  cases use with
  | call made => exact (h.orderly_call made).moves
  | newest view pairId => exact ((quiet_newest view pairId).orderly s).ignored.moves
  | pull cursor wanted => exact ((quiet_pull cursor wanted).orderly s).ignored.moves
  | leave b raised =>
    rw [perform_leave_block]
    cases s.isOpen b with
    | true => exact (h.orderly_discard b).moves
    | false => exact .stays (.refl s)

/-- A lock that is free is never given back. -/
theorem Guarded.fault_use (h : s.Guarded) {use : Use}
    (hfault : (s.perform use.step).1 = .error .lockFree) :
    ∃ b, use = .leave b (some .lockFree) := by
  cases use with
  | call made => exact absurd hfault (h.orderly_call made).fault
  | newest view pairId => exact absurd hfault ((quiet_newest view pairId).orderly s).ignored.fault
  | pull cursor wanted => exact absurd hfault ((quiet_pull cursor wanted).orderly s).ignored.fault
  | leave b raised =>
    rw [perform_leave_block] at hfault
    have hraised : blockOf raised = .error .lockFree := by
      cases hopen : s.isOpen b with
      | true =>
        rw [hopen] at hfault
        exact of_bind_lockFree (h.orderly_discard b).fault hfault
      | false =>
        rw [hopen] at hfault
        exact hfault
    cases raised with
    | none => cases hraised
    | some fault =>
      cases hraised
      exact ⟨b, rfl⟩

theorem guarded_afterUses {uses : List Use} (h : s.Guarded) : (s.afterUses uses).Guarded := by
  induction uses generalizing s with
  | nil => exact h
  | cons use rest ih => exact ih (h.moves (h.moves_use use))

/-- A batch that was opened and has ended stays so. -/
theorem Moves.closed {b : Nat} (h : s.Moves t) (hb : b < s.batches.length)
    (hclosed : s.isOpen b = false) : t.isOpen b = false := by
  cases h with
  | stays same => exact (same.isOpen b).trans hclosed
  | opens free locked count isOpen =>
    rw [isOpen, hclosed, Bool.false_or]
    exact beq_false_of_ne (Nat.ne_of_lt hb)
  | ends c opened free count isOpen => rw [isOpen, hclosed, Bool.false_and]

/-- The lock is free once a batch has ended. -/
theorem Moves.freed {b : Nat} (h : s.Moves t) (hopen : s.isOpen b = true)
    (hended : t.isOpen b = false) : t.locked = false := by
  cases h with
  | stays same => exact absurd (hended.symm.trans ((same.isOpen b).trans hopen)) Bool.false_ne_true
  | opens free locked count isOpen =>
    rw [isOpen, hopen, Bool.true_or] at hended
    cases hended
  | ends c opened free count isOpen => exact free

/-- Whatever is meant to end a batch that is open ends it, and gives the lock back. -/
theorem Guarded.ended {b : Nat} (h : s.Guarded) (hopen : s.isOpen b = true)
    {raised : Option StoreFault} {use : Use}
    (huse : use ∈ [.call (.commit b), .call (.discard b), Use.leave b raised]) :
    (s.perform use.step).2.isOpen b = false ∧ (s.perform use.step).2.locked = false := by
  have hlocked := h.locked.2 ⟨b, hopen⟩
  have hends : ∀ {step : StoreM Unit}, s.Ends b step →
      (s.perform step).2.isOpen b = false ∧ (s.perform step).2.locked = false := by
    intro step hstep
    refine ⟨?_, hstep.free⟩
    rw [hstep.isOpen, bne_self_eq_false, Bool.and_false]
  simp only [List.mem_cons, List.not_mem_nil, or_false] at huse
  rcases huse with rfl | rfl | rfl
  · exact hends (ends_commit hopen hlocked)
  · exact hends (ends_discard hopen hlocked)
  · rw [perform_leave_block, if_pos hopen]
    exact hends (ends_discard hopen hlocked)

/-- A batch is opened, with the next number, if nothing stands against it; else the lock stays. -/
theorem Guarded.opening (h : s.Guarded) (wait : Binary64) :
    ((∃ b, (s.perform (openBatch wait)).1 = .ok b) ↔
      waitTooLong wait = false ∧ (∀ b, s.isOpen b = false) ∧ s.strike? .openSession = none) ∧
    (∀ b, (s.perform (openBatch wait)).1 = .ok b →
      b = s.batches.length ∧ (s.perform (openBatch wait)).2.isOpen b = true) ∧
    ∀ fault, (s.perform (openBatch wait)).1 = .error fault →
      (s.perform (openBatch wait)).2.locked = s.locked := by
  have hfree : s.locked = false ↔ ∀ b, s.isOpen b = false := by
    refine ⟨h.closed, fun hclosed => Bool.eq_false_iff.2 fun hlocked => ?_⟩
    obtain ⟨b, hopen⟩ := h.locked.1 hlocked
    exact Bool.false_ne_true ((hclosed b).symm.trans hopen)
  rw [← hfree, perform_openBatch]
  cases hwait : waitTooLong wait with
  | true => exact ⟨⟨nofun, nofun⟩, nofun, fun _ _ => rfl⟩
  | false =>
    cases hlocked : s.locked with
    | true => exact ⟨⟨nofun, nofun⟩, nofun, fun _ _ => hlocked⟩
    | false =>
      cases hstrike : s.strike? .openSession with
      | some cause => exact ⟨⟨nofun, nofun⟩, nofun, fun _ _ => rfl⟩
      | none =>
        refine ⟨⟨fun _ => ⟨rfl, rfl, rfl⟩, fun _ => ⟨_, rfl⟩⟩, fun b hb => ?_, nofun⟩
        cases hb
        refine ⟨rfl, ?_⟩
        show (s.called .openSession).withOpened.isOpen s.batches.length = true
        rw [isOpen_withOpened]
        exact Bool.or_eq_true_iff.2 (.inr (beq_self_eq_true _))

end

/-! ## Any uses, any faults -/

/-- After any uses of a store and of its batches, whatever calls of the engine fail: at most one
batch is open, and the lock is held exactly while one is. Whatever is done next, a lock that is free
is not given back; a batch that has ended stays so, and one that ends had the lock and gives it
back. A commit, a discard and the end of a block always end a batch that is open. A new batch is
opened if none is open, unless the engine fails or the time to wait cannot be counted, and then the
lock stays as it was. A batch that is not open refuses everything, and the store stays as it was. -/
theorem lock_held_while_open (committed : Table) (plan : FaultPlan) (uses : List Use) :
    let s := (starting committed plan).afterUses uses
    (∀ b c, s.isOpen b = true → s.isOpen c = true → b = c) ∧
    (s.locked = true ↔ ∃ b, s.isOpen b = true) ∧
    (∀ use : Use, let out := s.perform use.step
      (out.1 = .error .lockFree → ∃ b, use = .leave b (some .lockFree)) ∧
      ∀ b < s.batches.length,
        (s.isOpen b = false → out.2.isOpen b = false) ∧
        (s.isOpen b = true → out.2.isOpen b = false →
          s.locked = true ∧ out.2.locked = false)) ∧
    (∀ b raised, s.isOpen b = true →
      ∀ use ∈ [.call (.commit b), .call (.discard b), Use.leave b raised],
        let out := s.perform use.step
        out.2.isOpen b = false ∧ out.2.locked = false) ∧
    (∀ wait, let out := s.perform (openBatch wait)
      ((∃ b, out.1 = .ok b) ↔ waitTooLong wait = false ∧ (∀ b, s.isOpen b = false) ∧
        s.strike? .openSession = none) ∧
      (∀ b, out.1 = .ok b → b = s.batches.length ∧ out.2.isOpen b = true) ∧
      ∀ fault, out.1 = .error fault → out.2.locked = s.locked) ∧
    waitTooLong ⟨0⟩ = false ∧
    ∀ b, s.isOpen b = false →
      (∀ x, s.perform (save b x) = (.error .batchClosed, s)) ∧
      (∀ pairId seconds, s.perform (delete b pairId seconds) = (.error .batchClosed, s)) ∧
      (∀ pairId, s.perform (newest (.batch b) pairId) = (.error .batchClosed, s)) ∧
      s.perform (commit b) = (.error .batchClosed, s) ∧
      s.perform (discard b) = (.error .batchClosed, s) := by
  intro s
  have h : s.Guarded := guarded_afterUses (guarded_starting committed plan)
  refine ⟨h.once, h.locked, fun use => ⟨h.fault_use, fun b hb => ⟨?_, fun hopen hended => ?_⟩⟩,
    fun b raised hopen use huse => h.ended hopen huse, h.opening, by decide, fun b hclosed => ?_⟩
  · exact (h.moves_use use).closed hb
  · exact ⟨h.locked.2 ⟨b, hopen⟩, (h.moves_use use).freed hopen hended⟩
  · exact ⟨fun _ => perform_checkOpen_closed hclosed _,
      fun _ _ => perform_checkOpen_closed hclosed _,
      fun _ => perform_checkOpen_closed hclosed _,
      perform_commit_closed hclosed, perform_discard_closed hclosed⟩

/-- The lock is free after a commit that fails, as the rollback after it and the session do. -/
example :
    let s := (starting .empty fun _ call =>
      if call = .openSession then none else some ⟨"disk full", true⟩).afterUses
        [.call (.openBatch ⟨0⟩), .call (.commit 0)]
    s.locked = false ∧ s.isOpen 0 = false :=
  ⟨rfl, rfl⟩

end Store

end RateLedger
