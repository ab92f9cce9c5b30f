import RateLedger.Proofs.Handles
import RateLedger.Proofs.Savings
import RateLedger.Proofs.Scannable
import RateLedger.Proofs.Soundness

/-!
# Work in a batch of its own

Saving an observation and pruning each open a batch, work in it, commit and leave it. Whatever the
rows are and whatever calls of the engine fail, this goes one of three ways: no session is opened;
the commit passes, and the committed table becomes what the batch saw; or the committed table stays,
and the fault of the work or of the engine is given (`cases_withBatch`). The lock is free after each
of them, and where a session fails to open or to close, its failure is given as it is.
-/

namespace RateLedger

/-- How many commits of a trace passed. -/
def commits (events : List EngineEvent) : Nat := events.countP (· = ⟨.commit, none⟩)

theorem commits_cons {event : EngineEvent} (h : event ≠ ⟨.commit, none⟩)
    (earlier : List EngineEvent) : commits (event :: earlier) = commits earlier :=
  List.countP_cons_of_neg (by simpa using h)

theorem commits_passed (earlier : List EngineEvent) :
    commits (⟨.commit, none⟩ :: earlier) = commits earlier + 1 :=
  List.countP_cons_of_pos (by simp)

/-- What is given after a session was closed: its failure, if it has one, is given as it is. -/
def closedWith (closing : Option Outage) (answer : Except StoreFault α) : Except StoreFault α :=
  match closing with
  | none => answer
  | some outage => .error (.engine outage.cause)

namespace Store

/-- A store has everything from another one but its trace, its journal and what its batches see, and
no commit passed in between. -/
structure SameOutside (s t : Store) : Prop extends s.SameHandles t where
  plan : t.plan = s.plan
  committed : t.committed = s.committed
  commits : commits t.trace = commits s.trace

section

variable {s t u : Store} {b : Nat}

theorem SameOutside.refl (s : Store) : s.SameOutside s := ⟨.refl s, rfl, rfl, rfl⟩

theorem SameOutside.called (h : s.SameOutside t) {call : EngineCall} (hcall : call ≠ .commit) :
    s.SameOutside (t.called call) := by
  refine ⟨h.toSameHandles.withTrace _, h.plan, h.committed, ?_⟩
  rw [← h.commits]
  exact commits_cons (fun heq => hcall (congrArg EngineEvent.call heq)) _

theorem SameOutside.withView (h : s.SameOutside t) (b : Nat) (table : Table) :
    s.SameOutside (t.withView b table) :=
  ⟨h.toSameHandles.withView b table, h.plan, h.committed, h.commits⟩

/-- Reading and editing show in nothing but the trace and the views of the batches. -/
theorem unmoved_outside (s : Store) {F : StoreFault → Prop}
    (hfault : ∀ fault : StoreFault, fault.isBackend = true → F fault) :
    Unmoved s.SameOutside F where
  call _ _ hcall ht := ht.called (EngineCall.ne_of_isReading hcall).2
  fault := hfault
  write _ ht := ht.called nofun
  withView _ b table ht := ht.withView b table

theorem Unmoved.sweep {I : Store → Prop} {F : StoreFault → Prop} (h : Unmoved I F) (b : Nat)
    {cutoff : Time.DateTime} (hmixed : cutoff.offset.isSome = false → F .mixedClocks) :
    Keeps I F (sweep b cutoff) := by
  have holder : Keeps I F (olderThan b cutoff) := by
    cases hcutoff : cutoff.offset.isSome with
    | true => exact (h.untouched (.batch b)).olderThan hcutoff
    | false =>
      rw [olderThan_of_isNone hcutoff]
      refine Keeps.bind ((h.untouched (.batch b)).pull rfl _) fun found => ?_
      cases found.2 with
      | full => exact Keeps.throw (hmixed hcutoff)
      | exhausted => exact Keeps.pure _
      | failed fault => exact Keeps.pure _
  refine Keeps.bind holder fun stale => Keeps.bind ?_ fun _ => Keeps.pure _
  refine Keeps.forM fun x _ => h.delete b x.pairId fun hwide => ?_
  have hfits : Key.fits x.seconds = true := (Bytes.isModerate_second x.inTime).fits
  exact absurd (hwide.symm.trans hfits) Bool.false_ne_true

/-! ## The end of a batch -/

/-- A batch has ended in a store, where its session was closed last. -/
structure Ended (u t : Store) (closing : Option Outage) : Prop where
  free : t.locked = false
  plan : t.plan = u.plan
  count : t.batches.length = u.batches.length
  trace : ∃ earlier, t.trace = ⟨.closeSession, closing⟩ :: earlier
  planned : ∃ n, u.plan n .closeSession = closing

/-- A call of the engine failed on the way from one store to another. -/
def Struck (s t : Store) : Prop := ∃ events, t.trace = events ++ s.trace ∧ ¬Fine events

/-- What becomes of a batch in which the work came to `result`, and what is given in the end. -/
inductive Finishes (u : Store) (b : Nat) (result : Except StoreFault α) (t : Store) :
    Except StoreFault α → Prop
  | kept (a : α) (closing : Option Outage) (worked : result = .ok a) (ended : u.Ended t closing)
    (committed : t.committed = u.viewOf b) (commits : commits t.trace = commits u.trace + 1) :
    Finishes u b result t (closedWith closing (.ok a))
  | dropped (fault : StoreFault) (closing : Option Outage)
    (cause : result = .error fault ∨ fault.isBackend = true)
    (ended : u.Ended t closing) (committed : t.committed = u.committed)
    (commits : RateLedger.commits t.trace = RateLedger.commits u.trace)
    (struck : ∀ a, result = .ok a → u.Struck t) :
    Finishes u b result t (closedWith closing (.error fault))

/-- Commits a batch in which the work came to `result`, or drops it if that is a fault. -/
def finish (b : Nat) (result : Except StoreFault α) : StoreM α :=
  ensuring
    (do
      let a ← ExceptT.mk (pure result)
      commit b
      return a) (leave b)

theorem answer_closeSession (s : Store) (answer : Except StoreFault α) :
    ((s.answer .closeSession .engine).bind fun _ => answer) =
      closedWith (s.strike? .closeSession) answer := by
  unfold Store.answer
  cases s.strike? .closeSession <;> rfl

/-- What is left of a batch after its rollback. -/
theorem ended_rollback (u : Store) (b : Nat) :
    let t := ((u.called .rollback).called .closeSession).withEnded b
    u.Ended t ((u.called .rollback).strike? .closeSession) ∧ commits t.trace = commits u.trace := by
  intro t
  refine ⟨⟨rfl, rfl, List.length_modify _ _ _, ⟨_, rfl⟩, _, rfl⟩, ?_⟩
  exact (commits_cons (by simp) _).trans (commits_cons (by simp) _)

/-- Leaving a batch after its work failed drops what it saw. -/
theorem finishes_failed (hopen : u.isOpen b = true) (hlocked : u.locked = true)
    {result : Except StoreFault α} {fault : StoreFault} (hresult : result = .error fault) :
    let out := u.perform (finish b result)
    u.Finishes b result out.2 out.1 := by
  intro out
  obtain ⟨other, hrolled, hother⟩ := fault_of_rollback (α := α) u fault
  have hending : (u.called .rollback).ending = (u.called .rollback).answer .closeSession .engine :=
    ending_of_locked hlocked
  have hout : out = (closedWith ((u.called .rollback).strike? .closeSession) (.error other),
      ((u.called .rollback).called .closeSession).withEnded b) := by
    show u.perform (finish b result) = _
    rw [hresult]
    show ((u.perform (leave b)).1.bind fun _ => .error fault, (u.perform (leave b)).2) = _
    rw [perform_leave, if_pos hopen, perform_discard hopen, perform_close, hending,
      ← answer_closeSession, ← hrolled]
    cases (u.called .rollback).answer .closeSession .engine <;> rfl
  obtain ⟨hended, hcommits⟩ := ended_rollback u b
  rw [hout]
  have hcause : result = .error other ∨ other.isBackend = true :=
    hother.imp_left fun (heq : other = fault) => hresult.trans (congrArg _ heq.symm)
  refine .dropped other _ hcause hended rfl hcommits fun a hok => ?_
  cases hresult.symm.trans hok

/-- After work that came to its end, leaving a batch comes to its commit. -/
theorem perform_finish_ok (hopen : u.isOpen b = true) (a : α) :
    u.perform (finish b (.ok a)) =
      ((u.perform (commit b)).1.map fun _ => a, (u.perform (commit b)).2) := by
  have hended := isOpen_of_commit hopen
  show u.perform (ensuring (commit b >>= fun _ => pure a) (leave b)) = _
  rw [perform_ensuring, perform_bind]
  generalize u.perform (commit b) = ended at hended ⊢
  rcases ended with ⟨fault | _, v⟩
  · dsimp only at hended ⊢
    rw [perform_leave, hended]
    rfl
  · dsimp only at hended ⊢
    rw [perform_pure, perform_leave, hended]
    rfl

/-- A commit that the engine lets pass keeps what its batch saw. -/
theorem finishes_passed (hopen : u.isOpen b = true) (hlocked : u.locked = true)
    (hstrike : u.strike? .commit = none) (a : α) :
    let out := u.perform (finish b (.ok a))
    u.Finishes b (.ok a) out.2 out.1 := by
  intro out
  let v := (u.called .commit).withCommitted b
  have hending : v.ending = v.answer .closeSession .engine := ending_of_locked hlocked
  have hanswer : v.ending.map (fun _ => a) = closedWith (v.strike? .closeSession) (.ok a) := by
    rw [hending, ← answer_closeSession]
    cases v.answer .closeSession .engine <;> rfl
  have hout : out = (closedWith (v.strike? .closeSession) (.ok a),
      (v.called .closeSession).withEnded b) := by
    show u.perform (finish b (.ok a)) = _
    rw [perform_finish_ok hopen, perform_commit hopen, hstrike]
    dsimp only
    rw [perform_close, hanswer]
  have hcommits : commits v.trace = commits u.trace + 1 := by
    show commits (⟨.commit, u.strike? .commit⟩ :: u.trace) = _
    rw [hstrike]
    exact commits_passed _
  rw [hout]
  refine .kept a _ rfl ⟨rfl, rfl, List.length_modify _ _ _, ⟨_, rfl⟩, _, rfl⟩ rfl ?_
  rw [← hcommits]
  exact commits_cons (by simp) _

/-- A commit that the engine refuses is rolled back, and drops what its batch saw. -/
theorem finishes_refused (hopen : u.isOpen b = true) (hlocked : u.locked = true) {outage : Outage}
    (hstrike : u.strike? .commit = some outage) (a : α) :
    let out := u.perform (finish b (.ok a))
    u.Finishes b (.ok a) out.2 out.1 := by
  intro out
  let v := (u.called .commit).withNote .warning "db.store" "Batch commit failed, rolling back"
  obtain ⟨other, hrolled, hother⟩ := fault_of_rollback (α := α) v (.failed .commit outage.cause)
  have hending :
      (v.called .rollback).ending = (v.called .rollback).answer .closeSession .engine :=
    ending_of_locked hlocked
  have hanswer : ((v.called .rollback).ending.bind fun _ =>
      (v.answer .rollback (.failed .rollback)).bind fun _ =>
        (.error (.failed .commit outage.cause) : Except StoreFault Unit)).map (fun _ => a) =
      closedWith ((v.called .rollback).strike? .closeSession) (.error other) := by
    rw [hending, ← answer_closeSession, ← hrolled]
    cases (v.called .rollback).answer .closeSession .engine with
    | error fault => rfl
    | ok done => cases v.answer .rollback (.failed .rollback) <;> rfl
  have hout : out = (closedWith ((v.called .rollback).strike? .closeSession) (.error other),
      ((v.called .rollback).called .closeSession).withEnded b) := by
    show u.perform (finish b (.ok a)) = _
    rw [perform_finish_ok hopen, perform_commit hopen, hstrike]
    dsimp only
    rw [perform_close]
    dsimp only
    rw [hanswer]
  have hcommits : commits v.trace = commits u.trace := by
    show commits (⟨.commit, u.strike? .commit⟩ :: u.trace) = _
    rw [hstrike]
    exact commits_cons (by simp) _
  obtain ⟨hended, hrolledBack⟩ := ended_rollback v b
  rw [hout]
  refine .dropped other _ (.inr (hother.elim (fun h => h ▸ rfl) id))
    ⟨hended.free, hended.plan, hended.count, hended.trace, hended.planned⟩ rfl
    (hrolledBack.trans hcommits) fun _ _ => ?_
  refine ⟨[_, _, ⟨.commit, u.strike? .commit⟩], rfl, fun hfine => ?_⟩
  cases hstrike.symm.trans (hfine ⟨.commit, u.strike? .commit⟩ (by simp))

/-- A batch whose work has come to its end is committed or dropped, and has ended. -/
theorem finishes (hopen : u.isOpen b = true) (hlocked : u.locked = true)
    (result : Except StoreFault α) :
    let out := u.perform (finish b result)
    u.Finishes b result out.2 out.1 := by
  cases result with
  | error fault => exact finishes_failed hopen hlocked rfl
  | ok a =>
    cases hstrike : u.strike? .commit with
    | none => exact finishes_passed hopen hlocked hstrike a
    | some outage => exact finishes_refused hopen hlocked hstrike a

/-! ## The whole batch -/

/-- Works in a batch of its own and commits it. -/
def ownBatch (wait : Binary64) (work : Nat → StoreM α) : StoreM α :=
  withBatch wait fun b => do
    let a ← work b
    commit b
    return a

theorem keep_eq_ownBatch (y : Sighting) (wait : Binary64) :
    keep y wait = ownBatch wait fun b => saveSighting b y :=
  keep_eq y wait

theorem prune_eq_ownBatch (cutoff : Time.DateTime) (wait : Binary64) :
    prune cutoff wait = do
      let stale ← ownBatch wait fun b => sweep b cutoff
      note .debug "services.compaction" ("Compaction before " ++ Time.Iso.ofDateTime cutoff ++
        " cleaned " ++ Number.Decimal.ofNat stale.length ++ " items")
      return stale.length :=
  prune_eq cutoff wait

/-- What follows the work depends on what it came to only. -/
theorem perform_work_finish (s : Store) (b : Nat) (work : StoreM α) :
    s.perform (ensuring
      (do
        let a ← work
        commit b
        return a) (leave b)) =
      (s.perform work).2.perform (finish b (s.perform work).1) := by
  unfold finish
  rw [perform_ensuring, perform_bind]
  rcases s.perform work with ⟨fault | a, t⟩
  · rfl
  · rfl

/-- A batch of its own is opened, worked in and ended. -/
theorem perform_ownBatch (s : Store) (wait : Binary64) (work : Nat → StoreM α) :
    s.perform (ownBatch wait work) =
      match s.perform (openBatch wait) with
      | (.error fault, t) => (.error fault, t)
      | (.ok b, t) => (t.perform (work b)).2.perform (finish b (t.perform (work b)).1) := by
  unfold ownBatch withBatch
  rw [perform_bind]
  rcases s.perform (openBatch wait) with ⟨fault | b, t⟩
  · rfl
  · exact perform_work_finish t b (work b)

/-- A time to wait that cannot be counted is refused at once. -/
theorem perform_ownBatch_of_wait {wait : Binary64} (hwait : waitTooLong wait = true)
    (work : Nat → StoreM α) : s.perform (ownBatch wait work) = (.error .waitTooLong, s) := by
  unfold ownBatch withBatch
  rw [perform_bind, perform_openBatch, hwait]
  rfl

/-- A batch of its own is refused while the lock is held. -/
theorem perform_ownBatch_of_locked (hlocked : s.locked = true) {wait : Binary64}
    (hwait : waitTooLong wait = false) (work : Nat → StoreM α) :
    s.perform (ownBatch wait work) = (.error .batchOpen, s) := by
  rw [perform_ownBatch, perform_openBatch, hwait, hlocked]
  rfl

/-- The work in a batch that was opened just now came to `result` and left `u`. -/
structure Worked (s : Store) (F : StoreFault → Prop) (work : StoreM α)
    (result : Except StoreFault α) (u : Store) : Prop where
  run : (s.called .openSession).withOpened.perform work = (result, u)
  outside : (s.called .openSession).withOpened.SameOutside u
  fault : ∀ fault, result = .error fault → F fault

/-- With no other batch open: no session is opened, or the work is done and the batch ends. -/
theorem cases_withBatch (hfree : s.locked = false) {wait : Binary64}
    (hwait : waitTooLong wait = false) {work : Nat → StoreM α} {F : StoreFault → Prop}
    (hwork : ∀ t : Store, Keeps t.SameOutside F (work s.batches.length)) :
    let out := s.perform (ownBatch wait work)
    (∃ outage, s.strike? .openSession = some outage ∧
      out = (.error (.engine outage.cause), s.called .openSession)) ∨
    (s.strike? .openSession = none ∧ ∃ result u,
      s.Worked F (work s.batches.length) result u ∧
      u.Finishes s.batches.length result out.2 out.1) := by
  intro out
  have hout : out = _ := perform_withBatch hfree hwait _
  cases hstrike : s.strike? .openSession with
  | some outage =>
    rw [hstrike] at hout
    have hcalled : { s.called .openSession with locked := false } = s.called .openSession := by
      rw [← hfree]
      rfl
    rw [← hcalled]
    exact .inl ⟨outage, rfl, hout⟩
  | none =>
    rw [hstrike] at hout
    generalize hb : s.batches.length = b at hout hwork ⊢
    have hkeeps := hwork (s.called .openSession).withOpened _ (.refl _)
    unfold LeadsTo at hkeeps
    have hopened : (s.called .openSession).withOpened.isOpen b = true := by
      rw [isOpen_withOpened, ← hb]
      exact Bool.or_eq_true_iff.2 (.inr (beq_self_eq_true _))
    generalize hrun : (s.called .openSession).withOpened.perform (work b) = worked at hkeeps
    obtain ⟨result, u⟩ := worked
    have hsplit : out = u.perform (finish b result) := by
      rw [hout, perform_work_finish, hrun]
    have hlocked : u.locked = true := hkeeps.1.locked
    have hopen : u.isOpen b = true := (hkeeps.1.isOpen b).trans hopened
    refine .inr ⟨rfl, result, u, ⟨hrun, hkeeps.1, hkeeps.2⟩, ?_⟩
    rw [hsplit]
    exact finishes hopen hlocked result

/-- With no batch open before, the lock is free after a batch of its own too. -/
theorem free_ownBatch (hfree : s.locked = false) (wait : Binary64) (work : Nat → StoreM α)
    {F : StoreFault → Prop} (hwork : ∀ t : Store, Keeps t.SameOutside F (work s.batches.length)) :
    let out := s.perform (ownBatch wait work)
    out.2.locked = false ∧ out.2.plan = s.plan := by
  intro out
  cases hwait : waitTooLong wait with
  | true =>
    have hout : out = (.error .waitTooLong, s) := perform_ownBatch_of_wait hwait work
    rw [hout]
    exact ⟨hfree, rfl⟩
  | false =>
    rcases cases_withBatch hfree hwait hwork with
      ⟨outage, -, hout⟩ | ⟨-, result, u, hworked, hfinishes⟩
    · rw [show out = _ from hout]
      exact ⟨hfree, rfl⟩
    · have hended : ∃ closing, u.Ended out.2 closing := by
        change u.Finishes s.batches.length result out.2 out.1 at hfinishes
        generalize out.1 = given at hfinishes
        cases hfinishes with
        | kept a closing worked ended => exact ⟨closing, ended⟩
        | dropped fault closing cause ended => exact ⟨closing, ended⟩
      obtain ⟨closing, hended⟩ := hended
      exact ⟨hended.free, hended.plan.trans hworked.outside.plan⟩

/-- A batch of its own is refused; or it ends with the lock free, and what it saw is committed or
the committed rows stay and a fault is given. After a commit the session can still fail, which is no
failure of the store as such. -/
theorem ownBatch_cases (wait : Binary64) (work : Nat → StoreM α) {F : StoreFault → Prop}
    (hwork : ∀ t : Store, Keeps t.SameOutside F (work s.batches.length)) :
    let out := s.perform (ownBatch wait work)
    (out.2 = s ∧ ∃ fault, out.1 = .error fault) ∨
    (out.2.locked = false ∧
      ((∃ a u, s.Worked F (work s.batches.length) (.ok a) u ∧
          out.2.committed = u.viewOf s.batches.length ∧
          ∀ fault, out.1 = .error fault → fault.isBackend = false) ∨
        out.2.committed = s.committed ∧ ∃ fault, out.1 = .error fault)) := by
  intro out
  cases hwait : waitTooLong wait with
  | true =>
    have hout : out = (.error .waitTooLong, s) := perform_ownBatch_of_wait hwait work
    exact .inl (by rw [hout]; exact ⟨rfl, _, rfl⟩)
  | false =>
    cases hlocked : s.locked with
    | true =>
      have hout : out = (.error .batchOpen, s) := perform_ownBatch_of_locked hlocked hwait work
      exact .inl (by rw [hout]; exact ⟨rfl, _, rfl⟩)
    | false =>
      refine .inr ⟨(free_ownBatch hlocked wait work hwork).1, ?_⟩
      rcases cases_withBatch hlocked hwait hwork with
        ⟨outage, -, hout⟩ | ⟨-, result, u, hworked, hfinishes⟩
      · rw [show out = _ from hout]
        exact .inr ⟨rfl, _, rfl⟩
      · change u.Finishes s.batches.length result out.2 out.1 at hfinishes
        generalize out.1 = given at hfinishes ⊢
        cases hfinishes with
        | kept a closing worked ended committed =>
          refine .inl ⟨a, u, worked ▸ hworked, committed, fun fault hfault => ?_⟩
          cases closing with
          | none => cases hfault
          | some outage =>
            cases hfault
            rfl
        | dropped fault closing cause ended committed =>
          refine .inr ⟨committed.trans hworked.outside.committed, ?_⟩
          cases closing with
          | none => exact ⟨fault, rfl⟩
          | some outage => exact ⟨.engine outage.cause, rfl⟩

/-- Where sessions close, a batch of its own is kept as a whole or not at all: what it saw is
committed and has the properties that the work gives it, or the committed table stays. -/
theorem kept_or_dropped (hfree : s.locked = false) (hclose : ∀ n, s.plan n .closeSession = none)
    (wait : Binary64) (work : Nat → StoreM α) {F : StoreFault → Prop} {P : α → Table → Prop}
    (hwork : ∀ t : Store, Keeps t.SameOutside F (work s.batches.length))
    (hseen : ∀ a u, s.Worked F (work s.batches.length) (.ok a) u →
      P a (u.viewOf s.batches.length)) :
    let out := s.perform (ownBatch wait work)
    (∃ a, out.1 = .ok a ∧ P a out.2.committed) ∨
      (∃ fault, out.1 = .error fault) ∧ out.2.committed = s.committed := by
  intro out
  cases hwait : waitTooLong wait with
  | true =>
    have hout : out = (.error .waitTooLong, s) := perform_ownBatch_of_wait hwait work
    rw [hout]
    exact .inr ⟨⟨_, rfl⟩, rfl⟩
  | false =>
    rcases cases_withBatch hfree hwait hwork with
      ⟨outage, -, hout⟩ | ⟨-, result, u, hworked, hfinishes⟩
    · rw [show out = _ from hout]
      exact .inr ⟨⟨_, rfl⟩, rfl⟩
    · -- The session was closed, so what the commit came to is given.
      have hplan : u.plan = s.plan := hworked.outside.plan
      have hclosed : ∀ {t : Store} {closing}, u.Ended t closing → closing = none := by
        intro t closing hended
        obtain ⟨n, hn⟩ := hended.planned
        rw [← hn, hplan, hclose]
      change u.Finishes s.batches.length result out.2 out.1 at hfinishes
      generalize out.1 = given at hfinishes ⊢
      cases hfinishes with
      | kept a closing worked ended committed commits =>
        obtain rfl := hclosed ended
        rw [worked] at hworked
        refine .inl ⟨a, rfl, ?_⟩
        rw [committed]
        exact hseen a u hworked
      | dropped fault closing cause ended committed commits =>
        obtain rfl := hclosed ended
        exact .inr ⟨⟨fault, rfl⟩, committed.trans hworked.outside.committed⟩

end

end Store

/-! ## Keeping a sighting -/

/-- On sound rows a request for one observation finds the first one, if there is one. -/
theorem Cursor.readRows_one {rows : List Row} (h : ∀ row ∈ rows, IsSound row) :
    readRows (some 1) rows [] =
      .ok (match rows.filterMap shown? with
        | [] => ([], .exhausted)
        | x :: _ => ([x], .full)) := by
  induction rows with
  | nil => simp [readRows]
  | cons row rest ih =>
    have hrest := ih fun other hother => h other (List.mem_cons_of_mem _ hother)
    unfold readRows
    rw [if_neg (by simp)]
    dsimp only
    rw [classify_of_isSound (h row List.mem_cons_self), List.filterMap_cons]
    cases shown? row with
    | none => exact hrest
    | some x =>
      show readRows (some 1) rest [x] = _
      unfold readRows
      rw [if_pos (by simp)]
      rfl

namespace Store

variable {s u : Store} {b : Nat}

/-- A batch that was opened just now is open and sees the committed table. -/
theorem opened_called (s : Store) :
    (s.called .openSession).withOpened.isOpen s.batches.length = true ∧
      (s.called .openSession).withOpened.viewOf s.batches.length = s.committed := by
  refine ⟨?_, viewOf_withOpened _⟩
  rw [isOpen_withOpened]
  exact Bool.or_eq_true_iff.2 (.inr (beq_self_eq_true _))

theorem outside_sweep (s : Store) (b : Nat) (cutoff : Time.DateTime) :
    Keeps s.SameOutside (fun _ => True) (sweep b cutoff) :=
  (unmoved_outside s fun _ _ => trivial).sweep b fun _ => trivial

theorem outside_saveSighting (s : Store) (b : Nat) (y : Sighting) :
    Keeps s.SameOutside (IsSavingFault y) (saveSighting b y) := by
  have hquiet : Unmoved s.SameOutside (IsSavingFault y) := unmoved_outside s fun _ => .inl
  unfold saveSighting
  cases hstored : y.stored with
  | ok x => exact hquiet.save b x
  | error flaw =>
    refine Keeps.bind ((hquiet.untouched (.batch b)).checkOpen b) fun _ => ?_
    exact Keeps.throw (.inr ⟨flaw, hstored, rfl⟩)

/-- A batch in which a sighting was saved sees what saving its observation writes. -/
theorem Worked.viewOf_saveSighting {s u : Store} {y : Sighting} {F : StoreFault → Prop}
    (h : s.Worked F (saveSighting s.batches.length y) (.ok ⟨⟩) u) :
    ∃ x : Observation, y = x ∧ u.viewOf s.batches.length = s.committed.withSaved x := by
  obtain ⟨hopened, hview⟩ := opened_called s
  obtain ⟨x, rfl, hsaved⟩ := exists_of_saveSighting hopened (congrArg Prod.fst h.run)
  rw [h.run, hview] at hsaved
  exact ⟨x, rfl, hsaved⟩

/-- A sighting that was kept is an observation. -/
theorem exists_of_keep {y : Sighting} {wait : Binary64}
    (h : (s.perform (keep y wait)).1 = .ok ⟨⟩) : ∃ x : Observation, y = x := by
  rw [keep_eq_ownBatch] at h
  rcases ownBatch_cases wait (fun b => saveSighting b y) (fun t => outside_saveSighting t _ y) with
    ⟨-, fault, hfault⟩ | ⟨-, ⟨⟨⟩, u, hworked, -⟩ | ⟨-, fault, hfault⟩⟩
  · cases hfault.symm.trans h
  · obtain ⟨x, rfl, -⟩ := hworked.viewOf_saveSighting
    exact ⟨x, rfl⟩
  · cases hfault.symm.trans h

/-- With no batch open a sighting is kept with all that saving it writes, or not at all. -/
theorem kept_or_dropped_keep (hfree : s.locked = false)
    (hclose : ∀ n, s.plan n .closeSession = none) (y : Sighting) (wait : Binary64) :
    let out := s.perform (keep y wait)
    (∃ x : Observation, y = x ∧ out.1 = .ok ⟨⟩ ∧ out.2.committed = s.committed.withSaved x) ∨
      (∃ fault, out.1 = .error fault) ∧ out.2.committed = s.committed := by
  have hseen : ∀ a u, s.Worked (IsSavingFault y) (saveSighting s.batches.length y) (.ok a) u →
      ∃ x : Observation, y = x ∧ u.viewOf s.batches.length = s.committed.withSaved x :=
    fun _ _ hworked => hworked.viewOf_saveSighting
  rw [keep_eq_ownBatch]
  refine (kept_or_dropped (P := fun _ table => ∃ x : Observation, y = x ∧
      table = s.committed.withSaved x) hfree hclose wait (fun b => saveSighting b y)
    (fun t => outside_saveSighting t _ y) hseen).imp_left ?_
  rintro ⟨⟨⟩, hok, x, hx, hrows⟩
  exact ⟨x, hx, hok, hrows⟩

theorem free_keep (hfree : s.locked = false) (y : Sighting) (wait : Binary64) :
    let out := s.perform (keep y wait)
    out.2.locked = false ∧ out.2.plan = s.plan := by
  rw [keep_eq_ownBatch]
  exact free_ownBatch hfree wait (fun b => saveSighting b y) fun t => outside_saveSighting t _ y

/-! ## Pruning -/

theorem Shows.works_sweep_unknown {table : Table} (hshows : s.Shows b table)
    {cutoff : Time.DateTime} (hcutoff : cutoff.offset.isSome = false) :
    s.Reads (.batch b) (sweep b cutoff)
      (if table.rows.filterMap shown? = [] then .ok [] else .error .mixedClocks) := by
  have hview : s.CanRead (.batch b) := hshows.isOpen
  have hpull := Cursor.reads_pull_ofPrefix hview Key.root (some 1)
  rw [show s.table (.batch b) = table from hshows.view, hshows.sound.range_root,
    Cursor.readRows_one hshows.sound] at hpull
  unfold sweep
  rw [olderThan_of_isNone hcutoff, bind_assoc]
  cases hfound : table.rows.filterMap shown? with
  | nil =>
    rw [hfound] at hpull
    exact hpull.bind ((Works.pure _).bind (Works.pure _))
  | cons x rest =>
    rw [hfound] at hpull
    exact hpull.bind (Works.throw .mixedClocks).bind_error

/-- A sweep that comes to its end has deleted all that is shown and older than the cutoff. Where the
cutoff does not know its distance from UTC, it only comes to its end if there is nothing to compare.
-/
theorem Shows.of_sweep {table : Table} (hshows : s.Shows b table) {cutoff : Time.DateTime}
    {stale : List Observation} (hrun : s.perform (sweep b cutoff) = (.ok stale, u)) :
    stale = (table.rows.filterMap shown?).filter (·.isOlder cutoff) ∧
      u.viewOf b = table.cleared stale := by
  have hok : (s.perform (sweep b cutoff)).1 = .ok stale := congrArg Prod.fst hrun
  cases hcutoff : cutoff.offset.isSome with
  | true =>
    obtain ⟨hstale, trace, hafter⟩ := (hshows.works_sweep hcutoff).of_ok hok
    obtain rfl := Except.ok.inj hstale
    rw [hrun] at hafter
    dsimp only at hafter
    rw [hafter]
    exact ⟨rfl, viewOf_withView hshows.isOpen _⟩
  | false =>
    obtain ⟨hstale, trace, hafter⟩ := (hshows.works_sweep_unknown hcutoff).of_ok hok
    by_cases hnone : table.rows.filterMap shown? = []
    · rw [if_pos hnone] at hstale
      obtain rfl := Except.ok.inj hstale
      rw [hrun] at hafter
      dsimp only at hafter
      rw [hafter, hnone]
      exact ⟨rfl, hshows.view⟩
    · rw [if_neg hnone] at hstale
      cases hstale

theorem free_prune (hfree : s.locked = false) (cutoff : Time.DateTime) (wait : Binary64) :
    let out := s.perform (prune cutoff wait)
    out.2.locked = false ∧ out.2.plan = s.plan := by
  have hbatch := free_ownBatch hfree wait (fun b => sweep b cutoff) fun t =>
    outside_sweep t s.batches.length cutoff
  rw [prune_eq_ownBatch, perform_bind]
  generalize s.perform (ownBatch wait fun b => sweep b cutoff) = out at hbatch ⊢
  rcases out with ⟨fault | stale, t⟩
  · exact hbatch
  · exact hbatch

/-- A pruning is refused; or it ends with the lock free, and all that is shown and older than the
cutoff is removed, or the committed rows stay and a fault is given. Where something is removed, no
failure of the store as such is given. -/
theorem prune_cases (hsound : s.committed.IsSound) (cutoff : Time.DateTime) (wait : Binary64) :
    let stale := (s.committed.rows.filterMap shown?).filter (·.isOlder cutoff)
    let out := s.perform (prune cutoff wait)
    (out.2 = s ∧ ∃ fault, out.1 = .error fault) ∨
    (out.2.locked = false ∧
      (out.2.committed = s.committed.cleared stale ∧
          (∀ fault, out.1 = .error fault → fault.isBackend = false) ∨
        out.2.committed = s.committed ∧ ∃ fault, out.1 = .error fault)) := by
  intro stale out
  have hbatch := ownBatch_cases wait (fun b => sweep b cutoff)
    fun t => outside_sweep t s.batches.length cutoff
  have hout : out = s.perform (_ >>= _) := congrArg s.perform (prune_eq_ownBatch cutoff wait)
  rw [perform_bind] at hout
  generalize s.perform (ownBatch wait fun b => sweep b cutoff) = ended at hbatch hout
  have hkept : ∀ {a u}, s.Worked (fun _ => True) (sweep s.batches.length cutoff) (.ok a) u →
      u.viewOf s.batches.length = s.committed.cleared stale := by
    intro a u hworked
    obtain ⟨hopened, hview⟩ := opened_called s
    have hshows : (s.called .openSession).withOpened.Shows s.batches.length s.committed :=
      ⟨hopened, hview, hsound, hsound⟩
    obtain ⟨rfl, hcleared⟩ := hshows.of_sweep hworked.run
    exact hcleared
  rcases ended with ⟨fault | told, t⟩
  · rw [hout]
    rcases hbatch with ⟨hsame, -⟩ | ⟨hfree, ⟨a, u, hworked, hrows, hfault⟩ | ⟨hrows, -⟩⟩
    · exact .inl ⟨hsame, fault, rfl⟩
    · refine .inr ⟨hfree, .inl ⟨hrows.trans (hkept hworked), fun other hother => ?_⟩⟩
      cases hother
      exact hfault fault rfl
    · exact .inr ⟨hfree, .inr ⟨hrows, fault, rfl⟩⟩
  · -- The line in the journal that follows leaves the lock and the committed rows.
    rw [hout]
    rcases hbatch with
      ⟨-, fault, hfault⟩ | ⟨hfree, ⟨a, u, hworked, hrows, -⟩ | ⟨-, fault, hfault⟩⟩
    · cases hfault
    · exact .inr ⟨hfree, .inl ⟨hrows.trans (hkept hworked), nofun⟩⟩
    · cases hfault

/-- With no batch open a history is pruned of all that is older than the cutoff, or not at all. -/
theorem kept_or_dropped_prune {h : History} (hholds : s.committed.Holds h)
    (hfree : s.locked = false) (hclose : ∀ n, s.plan n .closeSession = none)
    {list : List Observation} (hlists : h.Lists list) (cutoff : Time.DateTime) (wait : Binary64) :
    let stale := list.filter (·.isOlder cutoff)
    let out := s.perform (prune cutoff wait)
    out.1 = .ok stale.length ∧ out.2.committed.Holds (h.cleared stale) ∨
      (∃ fault, out.1 = .error fault) ∧ out.2.committed = s.committed := by
  intro stale out
  obtain ⟨hopened, hview⟩ := opened_called s
  have hshows : (s.called .openSession).withOpened.Shows s.batches.length s.committed :=
    ⟨hopened, hview, hholds.isSound, hholds.isSound⟩
  have hordinary : ∀ x ∈ stale, x.IsOrdinary := fun x hx =>
    hholds.ordinary x ((hlists.mem x).1 (List.mem_filter.1 hx).1)
  have hseen : ∀ a u, s.Worked (fun _ => True) (sweep s.batches.length cutoff) (.ok a) u →
      a = stale ∧ (u.viewOf s.batches.length).Holds (h.cleared stale) := by
    intro a u hworked
    obtain ⟨rfl, hrows⟩ := hshows.of_sweep hworked.run
    rw [hholds.lists.unique hlists] at hrows ⊢
    rw [hrows]
    exact ⟨rfl, hholds.cleared hordinary⟩
  have hout : out = s.perform (_ >>= _) := congrArg s.perform (prune_eq_ownBatch cutoff wait)
  have hcases :=
    kept_or_dropped (P := fun a table => a = stale ∧ table.Holds (h.cleared stale)) hfree hclose
      wait (fun b => sweep b cutoff) (fun t => outside_sweep t _ cutoff) hseen
  rcases hcases with ⟨a, hok, rfl, hrows⟩ | ⟨⟨fault, hfault⟩, hrows⟩
  · rw [hout, perform_bind_of_ok hok]
    exact .inl ⟨rfl, hrows⟩
  · rw [hout, perform_bind_of_error hfault]
    exact .inr ⟨⟨fault, rfl⟩, hrows⟩

end Store

end RateLedger
