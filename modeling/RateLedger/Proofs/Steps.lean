import RateLedger.Store.Scan

/-!
# What a step does when the engine may fail

Where no call of the engine fails, a step has one outcome, and that outcome does not depend on the
calls made before. Where a call fails, the step fails with a fault of the engine somewhere on its
way. `Works` says both of a step at once, so a chain of steps is described by describing each of
them (`Works.bind`). A step that only reads leaves the store on every way, unless it reads for a
batch and the engine undoes what the batch has written (`Reads`).
-/

namespace RateLedger

/-- No call of a trace failed. -/
def Fine (events : List EngineEvent) : Prop := ∀ event ∈ events, event.outage = none

theorem Fine.append {later earlier : List EngineEvent} :
    Fine (later ++ earlier) ↔ Fine later ∧ Fine earlier := by
  unfold Fine
  simp only [List.mem_append, or_imp, forall_and]

/-- The fault of an engine call in one of the activities of the store. -/
def StoreFault.isOutage : StoreFault → Bool
  | .failed _ _ => true
  | _ => false

theorem StoreFault.isBackend_of_isOutage {fault : StoreFault} (h : fault.isOutage = true) :
    fault.isBackend = true := by
  cases fault with
  | failed activity cause => rfl
  | _ => cases h

theorem StoreFault.isCorruption_of_isOutage {fault : StoreFault} (h : fault.isOutage = true) :
    fault.isCorruption = false := by
  cases fault with
  | failed activity cause => rfl
  | _ => cases h

namespace Store

/-- The engine of a store never fails. -/
def IsReliable (s : Store) : Prop := ∀ n call, s.plan n call = none

/-- The store after other calls of the engine. -/
def withTrace (s : Store) (trace : List EngineEvent) : Store := { s with trace }

/-- A step gives an answer and leaves the store `after`, unless a call of the engine fails; then it
fails itself, with a fault and in a store that `midway` allows. -/
structure Works (s : Store) (step : StoreM α) (answer : Except StoreFault α) (after : Store)
    (midway : StoreFault → Store → Prop) : Prop where
  plan : after.plan = s.plan
  run : ∀ before, ∃ events,
    (Fine events ∧
      (s.withTrace before).perform step = (answer, after.withTrace (events ++ before))) ∨
    (¬Fine events ∧ ¬s.IsReliable ∧ ∃ fault mid, midway fault mid ∧
      (s.withTrace before).perform step = (.error fault, mid.withTrace (events ++ before)))

section Works

variable {s t u : Store} {midway : StoreFault → Store → Prop}

theorem Works.pure (a : α) : s.Works (Pure.pure a) (.ok a) s midway :=
  ⟨rfl, fun _ => ⟨[], .inl ⟨by simp [Fine], rfl⟩⟩⟩

theorem Works.throw (fault : StoreFault) :
    s.Works (MonadExcept.throw fault : StoreM α) (.error fault) s midway :=
  ⟨rfl, fun _ => ⟨[], .inl ⟨by simp [Fine], rfl⟩⟩⟩

theorem Works.ofExcept (answer : Except StoreFault α) :
    s.Works (ExceptT.mk (Pure.pure answer)) answer s midway :=
  ⟨rfl, fun _ => ⟨[], .inl ⟨by simp [Fine], rfl⟩⟩⟩

theorem Works.modify {f : Store → Store} (hplan : (f s).plan = s.plan)
    (h : ∀ trace, f (s.withTrace trace) = (f s).withTrace trace) :
    s.Works (modify f) (.ok ⟨⟩) (f s) midway := by
  refine ⟨hplan, fun before => ⟨[], .inl ⟨by simp [Fine], ?_⟩⟩⟩
  rw [perform_modify, h]
  rfl

theorem Works.bind {step : StoreM α} {next : α → StoreM β} {a : α} {answer : Except StoreFault β}
    (first : s.Works step (.ok a) t midway) (second : t.Works (next a) answer u midway) :
    s.Works (step >>= next) answer u midway := by
  refine ⟨second.plan.trans first.plan, fun before => ?_⟩
  obtain ⟨early, ⟨hfine, hrun⟩ | ⟨hbad, hplan, fault, mid, hmid, hrun⟩⟩ := first.run before
  · obtain ⟨late, h | h⟩ := second.run (early ++ before)
    · refine ⟨late ++ early, .inl ⟨Fine.append.2 ⟨h.1, hfine⟩, ?_⟩⟩
      rw [perform_bind, hrun, List.append_assoc]
      exact h.2
    · obtain ⟨hbad, hplan, fault, mid, hmid, h⟩ := h
      refine ⟨late ++ early, .inr ⟨fun h => hbad (Fine.append.1 h).1, ?_, fault, mid, hmid, ?_⟩⟩
      · intro hreliable
        exact hplan (fun n call => first.plan ▸ hreliable n call)
      · rw [perform_bind, hrun, List.append_assoc]
        exact h
  · -- The first step failed, and the second one is not reached.
    refine ⟨early, .inr ⟨hbad, hplan, fault, mid, hmid, ?_⟩⟩
    rw [perform_bind, hrun]

theorem Works.bind_error {step : StoreM α} {next : α → StoreM β} {fault : StoreFault}
    (first : s.Works step (.error fault) t midway) :
    s.Works (step >>= next) (.error fault) t midway := by
  refine ⟨first.plan, fun before => ?_⟩
  obtain ⟨events, ⟨hfine, hrun⟩ | ⟨hbad, hplan, other, mid, hmid, hrun⟩⟩ := first.run before
  · exact ⟨events, .inl ⟨hfine, by rw [perform_bind, hrun]⟩⟩
  · exact ⟨events, .inr ⟨hbad, hplan, other, mid, hmid, by rw [perform_bind, hrun]⟩⟩

theorem Works.ofExcept_bind {value : Except StoreFault α} {next : α → StoreM β}
    {answer : α → Except StoreFault β}
    (h : ∀ a, value = .ok a → s.Works (next a) (answer a) s midway) :
    s.Works (ExceptT.mk (Pure.pure value) >>= next) (value >>= answer) s midway := by
  cases value with
  | error fault => exact (Works.ofExcept (.error fault)).bind_error
  | ok a => exact (Works.ofExcept (.ok a)).bind (h a rfl)

/-- A step that starts by looking at the store, if what it sees does not depend on the trace. -/
theorem Works.get_bind {next : Store → StoreM α} {answer : Except StoreFault α}
    (h : ∀ trace, s.Works (next (s.withTrace trace)) answer t midway) :
    s.Works (get >>= next) answer t midway := by
  refine ⟨(h []).plan, fun before => ?_⟩
  rw [perform_bind, perform_get]
  exact (h before).run before

theorem Works.engine {call : EngineCall} {wrap : String → StoreFault}
    (h : ∀ cause, midway (wrap cause) s) :
    s.Works (engine call wrap) (.ok ⟨⟩) s midway := by
  refine ⟨rfl, fun before => ⟨[⟨call, s.plan before.length call⟩], ?_⟩⟩
  rw [perform_engine]
  cases houtage : s.plan before.length call with
  | none =>
    refine .inl ⟨by simp [Fine], ?_⟩
    simp [withTrace, houtage]
  | some outage =>
    refine .inr ⟨by simp [Fine], ?_, wrap outage.cause, s, h outage.cause, ?_⟩
    · intro hreliable
      simp [hreliable before.length call] at houtage
    · simp [withTrace, houtage]

/-- A call for a batch may undo the writes of the batch when it fails. -/
theorem Works.engineFor {b : Nat} {call : EngineCall} {wrap : String → StoreFault}
    (h : ∀ outage : Outage, midway (wrap outage.cause) (s.settled b (some outage))) :
    s.Works (engineFor b call wrap) (.ok ⟨⟩) s midway := by
  refine ⟨rfl, fun before => ⟨[⟨call, s.plan before.length call⟩], ?_⟩⟩
  rw [perform_engineFor, perform_engine]
  cases houtage : s.plan before.length call with
  | none =>
    refine .inl ⟨by simp [Fine], ?_⟩
    simp [withTrace, houtage, settled]
  | some outage =>
    refine .inr ⟨by simp [Fine], ?_, wrap outage.cause, _, h outage, ?_⟩
    · intro hreliable
      simp [hreliable before.length call] at houtage
    · unfold settled
      cases hundoes : outage.undoes <;> simp [withTrace, houtage, hundoes, withView]

theorem Works.mono {step : StoreM α} {answer : Except StoreFault α}
    {wider : StoreFault → Store → Prop} (h : s.Works step answer t midway)
    (himp : ∀ fault mid, midway fault mid → wider fault mid) : s.Works step answer t wider := by
  refine ⟨h.plan, fun before => ?_⟩
  obtain ⟨events, hrun | ⟨hbad, hplan, fault, mid, hmid, hrun⟩⟩ := h.run before
  · exact ⟨events, .inl hrun⟩
  · exact ⟨events, .inr ⟨hbad, hplan, fault, mid, himp _ _ hmid, hrun⟩⟩

/-- With a reliable engine a step has its one outcome. -/
theorem Works.perform {step : StoreM α} {answer : Except StoreFault α}
    (h : s.Works step answer t midway) (hs : s.IsReliable) :
    ∃ events, s.perform step = (answer, t.withTrace (events ++ s.trace)) := by
  obtain ⟨events, ⟨-, hrun⟩ | ⟨-, hplan, -⟩⟩ := h.run s.trace
  · exact ⟨events, hrun⟩
  · exact absurd hs hplan

/-- Where a step ends well, it has given and left what is known of it. -/
theorem Works.of_ok {step : StoreM α} {answer : Except StoreFault α} {a : α}
    (h : s.Works step answer t midway) (hok : (s.perform step).1 = .ok a) :
    answer = .ok a ∧ ∃ trace, (s.perform step).2 = t.withTrace trace := by
  obtain ⟨events, ⟨-, hrun⟩ | ⟨-, -, fault, mid, -, hrun⟩⟩ := h.run s.trace
  · have hperform : s.perform step = _ := hrun
    rw [hperform] at hok ⊢
    exact ⟨hok, _, rfl⟩
  · have hperform : s.perform step = _ := hrun
    rw [hperform] at hok
    cases hok

theorem Works.checkOpen {b : Nat} (h : s.isOpen b = true) :
    s.Works (checkOpen b) (.ok ⟨⟩) s midway := by
  refine Works.get_bind fun trace => ?_
  have hopen : (s.withTrace trace).isOpen b = true := h
  rw [hopen]
  exact Works.pure PUnit.unit

theorem Works.checkOpen_closed {b : Nat} (h : s.isOpen b = false) :
    s.Works (Store.checkOpen b) (.error .batchClosed) s midway := by
  refine Works.get_bind fun trace => ?_
  have hclosed : (s.withTrace trace).isOpen b = false := h
  rw [hclosed]
  exact Works.throw .batchClosed

end Works

/-- The lock is taken unless it is held, or the time to wait cannot be counted. -/
theorem perform_acquire (s : Store) (wait : Binary64) :
    s.perform (acquire wait) =
      if waitTooLong wait then (.error .waitTooLong, s)
      else if s.locked then (.error .batchOpen, s)
      else (.ok ⟨⟩, { s with locked := true }) := by
  unfold acquire
  dsimp only
  by_cases hwait : waitTooLong wait = true
  · rw [if_pos hwait, if_pos hwait]
    rfl
  · rw [if_neg hwait, if_neg hwait, perform_bind, perform_get]
    dsimp only
    by_cases hlocked : s.locked = true
    · rw [if_pos hlocked, if_pos hlocked]
      rfl
    · rw [if_neg hlocked, if_neg hlocked]
      rfl

/-! ## Reading -/

/-- A view can be read unless it is that of a batch that is not open. -/
def CanRead (s : Store) : View → Prop
  | .committed => True
  | .batch b => s.isOpen b = true

/-- What a failed call made for reading a view may leave: a store as it was, or one in which the
batch of the view sees the committed table again. -/
def MayLeave (s : Store) : View → Store → Prop
  | .committed, mid => mid = s
  | .batch b, mid => mid = s ∨ mid = s.withView b s.committed

/-- A step that only reads from a view: only the engine keeps it from its answer. -/
abbrev Reads (s : Store) (view : View) (step : StoreM α) (answer : Except StoreFault α) : Prop :=
  s.Works step answer s fun fault mid => fault.isOutage = true ∧ s.MayLeave view mid

section Reads

variable {s : Store}

theorem reads_engine {call : EngineCall} (activity : Activity) :
    s.Reads .committed (engine call (.failed activity)) (.ok ⟨⟩) :=
  Works.engine fun _ => ⟨rfl, rfl⟩

theorem mayLeave_settled (s : Store) (b : Nat) (outage : Option Outage) :
    s.MayLeave (.batch b) (s.settled b outage) := by
  unfold settled
  split
  · exact .inr rfl
  · exact .inl rfl

theorem reads_engineFor {b : Nat} {call : EngineCall} (activity : Activity) :
    s.Reads (.batch b) (engineFor b call (.failed activity)) (.ok ⟨⟩) :=
  Works.engineFor fun outage => ⟨rfl, mayLeave_settled s b (some outage)⟩

theorem reads_ensuring {body : StoreM α} {cleanup : StoreM Unit} {answer : Except StoreFault α}
    (hbody : s.Reads .committed body answer) (hcleanup : s.Reads .committed cleanup (.ok ⟨⟩)) :
    s.Reads .committed (ensuring body cleanup) answer := by
  refine ⟨rfl, fun before => ?_⟩
  obtain ⟨early, hfirst⟩ := hbody.run before
  obtain ⟨late, hsecond⟩ := hcleanup.run (early ++ before)
  refine ⟨late ++ early, ?_⟩
  rw [perform_ensuring, Fine.append, List.append_assoc]
  rcases hfirst with ⟨hfine, hrun⟩ | ⟨hbad, hplan, fault, mid, ⟨hout, rfl⟩, hrun⟩ <;> rw [hrun]
  · rcases hsecond with ⟨hfine', hrun'⟩ | ⟨hbad', hplan, fault, mid, ⟨hout, rfl⟩, hrun'⟩ <;>
      rw [hrun']
    · exact .inl ⟨⟨hfine', hfine⟩, rfl⟩
    · exact .inr ⟨fun h => hbad' h.1, hplan, fault, mid, ⟨hout, rfl⟩, rfl⟩
  · rcases hsecond with ⟨-, hrun'⟩ | ⟨-, -, other, mid', ⟨hout', rfl⟩, hrun'⟩ <;> rw [hrun']
    · exact .inr ⟨fun h => hbad h.2, hplan, fault, mid, ⟨hout, rfl⟩, rfl⟩
    · exact .inr ⟨fun h => hbad h.2, hplan, other, mid', ⟨hout', rfl⟩, rfl⟩

theorem table_withTrace (trace : List EngineEvent) (view : View) :
    (s.withTrace trace).table view = s.table view := by
  cases view <;> rfl

theorem reads_query {view : View} (h : s.CanRead view) (ask : Table → α) :
    s.Reads view (query view ask) (.ok (ask (s.table view))) := by
  have hask : s.Reads view (do return ask ((← get).table view)) (.ok (ask (s.table view))) := by
    refine Works.get_bind fun trace => ?_
    rw [table_withTrace]
    exact Works.pure _
  cases view with
  | committed =>
    exact Works.bind (reads_engine .read)
      (reads_ensuring (Works.bind (reads_engine .read) hask) (reads_engine .read))
  | batch b => exact Works.bind (Works.checkOpen h) (Works.bind (reads_engineFor .batchRead) hask)

theorem reads_readRow {view : View} (h : s.CanRead view) (key : Bytes) :
    s.Reads view (readRow view key) (.ok ((s.table view).lookup key)) :=
  reads_query h fun table => table.lookup key

end Reads

end Store

end RateLedger
