import RateLedger.Proofs.Steps

/-!
# Invariants of steps

A step keeps a property of stores if it leaves every store with the property in a store with the
property, whether it ends well or fails, and if its faults are of an allowed kind. Every way to put
steps together keeps what its parts keep, so an invariant is shown one small step at a time.
-/

namespace RateLedger.Store

/-- From one store a step leads to `I` and fails with nothing but `F`. -/
def LeadsTo (s : Store) (I : Store → Prop) (F : StoreFault → Prop) (step : StoreM α) : Prop :=
  I (s.perform step).2 ∧ ∀ fault, (s.perform step).1 = .error fault → F fault

/-- A step keeps `I` and fails with nothing but `F`. -/
def Keeps (I : Store → Prop) (F : StoreFault → Prop) (step : StoreM α) : Prop :=
  ∀ s, I s → s.LeadsTo I F step

section

variable {I : Store → Prop} {F : StoreFault → Prop}

theorem Keeps.pure (a : α) : Keeps I F (Pure.pure a) :=
  fun _ hs => ⟨hs, nofun⟩

theorem Keeps.throw {fault : StoreFault} (h : F fault) :
    Keeps I F (MonadExcept.throw fault : StoreM α) :=
  fun _ hs => ⟨hs, fun _ hfault => by cases hfault; exact h⟩

theorem Keeps.throw_bind {fault : StoreFault} {next : α → StoreM β} (h : F fault) :
    Keeps I F (MonadExcept.throw fault >>= next) :=
  fun _ hs => ⟨hs, fun _ hfault => by cases hfault; exact h⟩

theorem Keeps.modify {f : Store → Store} (h : ∀ s, I s → I (f s)) : Keeps I F (modify f) :=
  fun s hs => ⟨h s hs, nofun⟩

theorem Keeps.modifyGet {f : Store → α × Store} (h : ∀ s, I s → I (f s).2) :
    Keeps I F (MonadStateOf.modifyGet f : StoreM α) :=
  fun s hs => ⟨h s hs, nofun⟩

theorem Keeps.bind {step : StoreM α} {next : α → StoreM β} (hstep : Keeps I F step)
    (hnext : ∀ a, Keeps I F (next a)) : Keeps I F (step >>= next) := by
  intro s hs
  have hfirst := hstep s hs
  unfold LeadsTo at hfirst ⊢
  rw [perform_bind]
  generalize s.perform step = out at hfirst ⊢
  rcases out with ⟨fault | a, t⟩
  · exact ⟨hfirst.1, fun _ hfault => by cases hfault; exact hfirst.2 fault rfl⟩
  · exact hnext a t hfirst.1

theorem Keeps.get_bind {next : Store → StoreM α} (h : ∀ s, Keeps I F (next s)) :
    Keeps I F (get >>= next) :=
  fun s hs => h s s hs

theorem Keeps.engine (htrace : ∀ s trace, I s → I (s.withTrace trace)) {call : EngineCall}
    {wrap : String → StoreFault} (h : ∀ cause, F (wrap cause)) : Keeps I F (engine call wrap) := by
  intro s hs
  unfold LeadsTo
  rw [perform_engine]
  refine ⟨htrace s _ hs, fun fault hfault => ?_⟩
  cases houtage : s.plan s.trace.length call with
  | none =>
    rw [houtage] at hfault
    cases hfault
  | some outage =>
    rw [houtage] at hfault
    cases hfault
    exact h outage.cause

/-- A call for a batch keeps what neither calls nor the undoing of a batch touch. -/
theorem Keeps.engineFor (b : Nat) {call : EngineCall} {wrap : String → StoreFault}
    (hengine : Keeps I F (Store.engine call wrap))
    (hundo : ∀ s, I s → I (s.withView b s.committed)) :
    Keeps I F (Store.engineFor b call wrap) := by
  intro s hs
  obtain ⟨hafter, hfault⟩ := hengine s hs
  unfold LeadsTo
  rw [perform_engineFor]
  refine ⟨?_, hfault⟩
  unfold settled
  split
  · exact hundo _ hafter
  · exact hafter

theorem Keeps.ensuring {body : StoreM α} {cleanup : StoreM Unit} (hbody : Keeps I F body)
    (hcleanup : Keeps I F cleanup) : Keeps I F (ensuring body cleanup) := by
  intro s hs
  have hfirst := hbody s hs
  have hsecond := hcleanup _ hfirst.1
  unfold LeadsTo
  rw [perform_ensuring]
  refine ⟨hsecond.1, fun fault hfault => ?_⟩
  cases hended : ((s.perform body).2.perform cleanup).1 with
  | error other =>
    rw [hended] at hfault
    cases hfault
    exact hsecond.2 fault hended
  | ok ended =>
    rw [hended] at hfault
    exact hfirst.2 fault hfault

theorem Keeps.onFault {body : StoreM α} {handle : StoreFault → StoreM Unit}
    (hbody : Keeps I F body) (hhandle : ∀ fault, Keeps I F (handle fault)) :
    Keeps I F (onFault body handle) := by
  intro s hs
  have hfirst := hbody s hs
  unfold LeadsTo at hfirst ⊢
  rw [perform_onFault]
  generalize s.perform body = out at hfirst ⊢
  rcases out with ⟨fault | a, t⟩
  · have hsecond := hhandle fault t hfirst.1
    refine ⟨hsecond.1, fun other hother => ?_⟩
    cases hended : (t.perform (handle fault)).1 with
    | error late =>
      dsimp only at hother
      rw [hended] at hother
      cases hother
      exact hsecond.2 other hended
    | ok ended =>
      dsimp only at hother
      rw [hended] at hother
      cases hother
      exact hfirst.2 fault rfl
  · exact hfirst

theorem Keeps.forM {list : List α} {step : α → StoreM Unit} (h : ∀ a ∈ list, Keeps I F (step a)) :
    Keeps I F (list.forM step) := by
  induction list with
  | nil => exact Keeps.pure _
  | cons a rest ih =>
    refine Keeps.bind (h a List.mem_cons_self) fun _ => ih fun b hb => ?_
    exact h b (List.mem_cons_of_mem _ hb)

/-- A step with a known way to work leads to what its outcome and its ways to fail have. -/
theorem Works.leadsTo {s after : Store} {step : StoreM α} {answer : Except StoreFault α}
    {midway : StoreFault → Store → Prop} (h : s.Works step answer after midway)
    (htrace : ∀ t trace, I t → I (t.withTrace trace)) (hafter : I after)
    (hanswer : ∀ fault, answer = .error fault → F fault)
    (hmidway : ∀ fault mid, midway fault mid → F fault ∧ I mid) : s.LeadsTo I F step := by
  obtain ⟨events, ⟨-, hrun⟩ | ⟨-, -, fault, mid, hmid, hrun⟩⟩ := h.run s.trace
  · have hperform : s.perform step = _ := hrun
    unfold LeadsTo
    rw [hperform]
    exact ⟨htrace _ _ hafter, hanswer⟩
  · have hperform : s.perform step = _ := hrun
    obtain ⟨hfault, hkept⟩ := hmidway fault mid hmid
    unfold LeadsTo
    rw [hperform]
    exact ⟨htrace _ _ hkept, fun _ h => by cases h; exact hfault⟩

end

end RateLedger.Store
