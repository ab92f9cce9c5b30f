import RateLedger.World

/-!
# What actions keep

An action keeps a property of worlds if it leaves every world with the property in a world with the
property, whether it ends well or fails; and some actions never fail. Both are shown part by part.
-/

namespace RateLedger

namespace World

theorem perform_note (world : World) (level : Level) (speaker : String) (text : Text.Wide) :
    world.perform (Action.note level speaker text) =
      (.ok ⟨⟩, { world with store := world.store.withNote level speaker text }) := rfl

theorem perform_map (world : World) (f : α → β) (action : Action α) :
    world.perform (f <$> action) =
      ((world.perform action).1.map f, (world.perform action).2) := by
  show world.perform (action >>= fun a => pure (f a)) = _
  rw [perform_bind]
  rcases world.perform action with ⟨_ | _, _⟩ <;> rfl

theorem perform_bind_of_ok {world : World} {action : Action α} {a : α}
    (h : (world.perform action).1 = .ok a) (next : α → Action β) :
    world.perform (action >>= next) = (world.perform action).2.perform (next a) := by
  rw [perform_bind]
  rcases hrun : world.perform action with ⟨_ | b, after⟩
  · rw [hrun] at h
    cases h
  · rw [hrun] at h
    cases h
    rfl

theorem perform_bind_of_error {world : World} {action : Action α} {failure : Failure}
    (h : (world.perform action).1 = .error failure) (next : α → Action β) :
    (world.perform (action >>= next)).1 = .error failure := by
  rw [perform_bind]
  rcases hrun : world.perform action with ⟨other | b, after⟩
  · rw [hrun] at h
    cases h
    rfl
  · rw [hrun] at h
    cases h

/-- What follows an action may depend on how it ended. -/
theorem run_bind (world : World) (action : Action α) (next : Except Failure α → StateM World β) :
    (action.run >>= next).run world =
      (next (world.perform action).1).run (world.perform action).2 := rfl

end World

namespace Action

/-- An action keeps a property of worlds. -/
def Keeps (I : World → Prop) (action : Action α) : Prop :=
  ∀ world, I world → I (world.perform action).2

/-- An action never fails. -/
def Succeeds (action : Action α) : Prop :=
  ∀ world : World, ∃ a, (world.perform action).1 = .ok a

section

variable {I : World → Prop}

theorem Keeps.pure (a : α) : (Pure.pure a : Action α).Keeps I := fun _ h => h

theorem Keeps.throw (failure : Failure) : (MonadExcept.throw failure : Action α).Keeps I :=
  fun _ h => h

theorem Keeps.bind {action : Action α} {next : α → Action β} (h : action.Keeps I)
    (hnext : ∀ a, (next a).Keeps I) : (action >>= next).Keeps I := by
  intro world hworld
  have hfirst := h world hworld
  rw [World.perform_bind]
  generalize world.perform action = out at hfirst ⊢
  rcases out with ⟨failure | a, after⟩
  · exact hfirst
  · exact hnext a after hfirst

theorem Keeps.map {action : Action α} (h : action.Keeps I) (f : α → β) : (f <$> action).Keeps I :=
  h.bind fun a => .pure (f a)

theorem Keeps.mapM {list : List α} {action : α → Action β} (h : ∀ a ∈ list, (action a).Keeps I) :
    (list.mapM action).Keeps I := by
  induction list with
  | nil => exact .pure []
  | cons a rest ih =>
    rw [List.mapM_cons]
    refine .bind (h a List.mem_cons_self) fun b => .bind (ih fun c hc => ?_) fun _ => .pure _
    exact h c (List.mem_cons_of_mem a hc)

theorem Keeps.attempt {action : Action α} (h : action.Keeps I) : (attempt action).Keeps I := h

theorem Keeps.onStore {step : StoreM α}
    (h : ∀ world, I world → I { world with store := (world.store.perform step).2 }) :
    (onStore step).Keeps I := h

theorem Succeeds.pure (a : α) : (Pure.pure a : Action α).Succeeds := fun _ => ⟨a, rfl⟩

theorem Succeeds.bind {action : Action α} {next : α → Action β} (h : action.Succeeds)
    (hnext : ∀ a, (next a).Succeeds) : (action >>= next).Succeeds := by
  intro world
  obtain ⟨a, ha⟩ := h world
  rw [World.perform_bind_of_ok ha]
  exact hnext a _

theorem Succeeds.mapM {list : List α} {action : α → Action β}
    (h : ∀ a ∈ list, (action a).Succeeds) : (list.mapM action).Succeeds := by
  induction list with
  | nil => exact .pure []
  | cons a rest ih =>
    rw [List.mapM_cons]
    refine .bind (h a List.mem_cons_self) fun b => .bind (ih fun c hc => ?_) fun _ => .pure _
    exact h c (List.mem_cons_of_mem a hc)

theorem Succeeds.attempt (action : Action α) : (attempt action).Succeeds := fun _ => ⟨_, rfl⟩

theorem Succeeds.note (level : Level) (speaker : String) (text : Text.Wide) :
    (note level speaker text).Succeeds := fun _ => ⟨⟨⟩, rfl⟩

end

end Action

end RateLedger
