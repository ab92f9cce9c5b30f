import Mathlib.Data.List.Chain
import RateLedger.Proofs.Contents
import RateLedger.Proofs.Ticks

/-!
# How old observations get

A poller checks from time to time whether pruning is due, and others use its store in between and
prune it as well. Whatever they do, one step after the other keeps the poller on time (`OnTime`): it
has set out on no pruning before a reading of the clock was later than its start, any two prunings
it set out on are further apart than the retention, and while all of them came to their ends, what
is left from before the latest one is no older than that allows. So after a check an observation is
older than twice the retention only if it was saved since the latest pruning (`prunes_in_time`).
-/

namespace RateLedger

/-! ## Checks among other uses -/

/-- What happens to a poller and its store: a check at a reading of the clock, or what others do. -/
inductive Happening
  | check (now : Time.DateTime)
  | use (use : Use)
  | prune (cutoff : Time.DateTime) (wait : Binary64)

/-- The observations that are given to be saved. -/
def Happening.saves : Happening → List Observation
  | .use (.call (.edit _ (.save x))) => [x]
  | _ => []

/-- A pruning that a poller set out on, and what it came to. -/
structure Attempt where
  time : Time.DateTime
  result : Except Failure (Option Nat)

namespace Attempt

/-- The pruning came to its end and told how much it cleaned. -/
def Succeeded (attempt : Attempt) : Prop := ∃ count, attempt.result = .ok (some count)

/-- More time than the retention went by from one attempt to another. -/
def Follows (retention : Int) (later earlier : Attempt) : Prop :=
  ∃ passed, later.time.since? earlier.time = some passed ∧ retention < passed

end Attempt

/-- A poller and the world it works on, with what is told of them. -/
structure Upkeep where
  poller : Poller
  world : World
  /-- The prunings that the poller set out on, the latest one first. -/
  attempts : List Attempt
  /-- What was given to be saved since the latest one. -/
  saves : List Observation

namespace Upkeep

/-- Before anything happened. -/
def starting (poller : Poller) (world : World) : Upkeep := ⟨poller, world, [], []⟩

/-- The poller checks whether pruning is due. -/
def checked (u : Upkeep) (now : Time.DateTime) : Upkeep :=
  let out := u.poller.pruneIfDue.run { u.world with clock := now }
  match u.poller.isDue now with
  | .ok true => ⟨out.1.2, out.2, ⟨now, out.1.1⟩ :: u.attempts, []⟩
  | _ => { u with poller := out.1.2, world := out.2 }

/-- Others take a step on the store. -/
def used (u : Upkeep) (step : StoreM α) : Upkeep :=
  { u with world := (u.world.perform (Action.onStore step)).2 }

/-- After one happening. -/
def happens (u : Upkeep) : Happening → Upkeep
  | .check now => u.checked now
  | .use use => { u.used use.step with saves := (Happening.use use).saves ++ u.saves }
  | .prune cutoff wait => u.used (Store.prune cutoff wait)

/-- After some happenings. -/
def after (u : Upkeep) (happenings : List Happening) : Upkeep := happenings.foldl happens u

section

variable {u : Upkeep} {now : Time.DateTime}

theorem checked_of_due (h : u.poller.isDue now = .ok true) :
    let out := World.perform { u.world with clock := now } (u.poller.prune now)
    u.checked now =
      ⟨{ u.poller with lastPruned := now }, out.2, ⟨now, out.1⟩ :: u.attempts, []⟩ := by
  unfold checked
  rw [Poller.run_pruneIfDue]
  simp only [h]

theorem checked_of_not_due (h : u.poller.isDue now ≠ .ok true) :
    u.checked now = { u with world := { u.world with clock := now } } := by
  unfold checked
  rw [Poller.run_pruneIfDue]
  dsimp only
  rcases hdue : u.poller.isDue now with failure | due
  · rfl
  · cases due with
    | false => rfl
    | true => exact absurd hdue h

end

end Upkeep

/-! ## Readings of the clock -/

theorem Time.DateTime.of_minus? {d e : Time.DateTime} {micros : Int}
    (h : d.minus? micros = some e) : e.offset = d.offset ∧ e.instant = d.instant - micros := by
  obtain ⟨hwall, hoffset⟩ := ofWall?_eq_some_iff.1 h
  refine ⟨hoffset, ?_⟩
  unfold instant
  rw [hwall, hoffset]
  omega

namespace Poller

variable {poller : Poller} {now start : Time.DateTime} {world : World}

theorem isDue_eq_true_iff :
    poller.isDue now = .ok true ↔
      ∃ passed, now.since? poller.lastPruned = some passed ∧ poller.retention < passed := by
  unfold isDue
  cases now.since? poller.lastPruned with
  | none => simp
  | some passed => simp

/-- A poller that pruned a retention before its start has to prune as soon as time goes on. -/
theorem isDue_of_start (h : start.minus? poller.retention = some poller.lastPruned) :
    poller.isDue now = .ok true ↔ start.isBefore? now = some true := by
  obtain ⟨hoffset, hinstant⟩ := Time.DateTime.of_minus? h
  have hcomparable : now.comparable poller.lastPruned = start.comparable now := by
    unfold Time.DateTime.comparable
    rw [hoffset, Bool.beq_comm]
  rw [isDue_eq_true_iff]
  unfold Time.DateTime.since? Time.DateTime.isBefore?
  rw [hcomparable, hinstant]
  cases start.comparable now with
  | false => simp
  | true =>
    simp only [if_true, Option.some.injEq, exists_eq_left', decide_eq_true_eq]
    omega

/-- A check that makes no attempt comes no later than the retention after the latest one. -/
theorem le_of_not_due (hnot : poller.isDue now ≠ .ok true)
    (hcomparable : now.comparable poller.lastPruned = true) :
    now.instant - poller.lastPruned.instant ≤ poller.retention := by
  rw [Ne, isDue_eq_true_iff] at hnot
  unfold Time.DateTime.since? at hnot
  rw [if_pos hcomparable] at hnot
  simp only [Option.some.injEq, exists_eq_left'] at hnot
  omega

/-- Pruning shows nothing new, and where it comes to its end nothing older than its cutoff. -/
theorem showsOnly_prune (poller : Poller) {P : Observation → Prop} (h : world.store.ShowsOnly P)
    (now : Time.DateTime) :
    let out := world.perform (poller.prune now)
    out.2.store.ShowsOnly P ∧
      ∀ count, out.1 = .ok (some count) → out.2.store.ShowsOnly fun x =>
        P x ∧ now.instant - poller.retention ≤ x.seconds * Time.microsPerSecond := by
  intro out
  have hout : out = world.perform (_ >>= _) := congrArg world.perform (poller.prune_eq now)
  cases hcutoff : now.minus? poller.retention with
  | none =>
    rw [hcutoff] at hout
    rw [hout]
    exact ⟨h, nofun⟩
  | some cutoff =>
    obtain ⟨-, hinstant⟩ := Time.DateTime.of_minus? hcutoff
    obtain ⟨journal, hrun⟩ := poller.perform_pruneTo cutoff world
    rw [hcutoff] at hout
    obtain ⟨hkept, hcleaned⟩ := h.prune cutoff poller.wait
    have hsame : out = world.perform (poller.pruneTo cutoff) := hout
    rw [hsame, hrun]
    refine ⟨hkept.withJournal journal, fun count hcount => ?_⟩
    generalize world.store.perform (Store.prune cutoff poller.wait) = pruned at hcleaned hcount ⊢
    rcases pruned with ⟨fault | cleaned, store⟩
    · dsimp only at hcount
      cases hbackend : fault.isBackend <;> simp [hbackend] at hcount
    · refine ((hcleaned cleaned rfl).withJournal journal).mono fun x hx => ⟨hx.1, ?_⟩
      have hnew := hx.2
      simp only [Observation.isOlder, decide_eq_false_iff_not] at hnew
      omega

end Poller

/-! ## On time -/

namespace Upkeep

/-- What may be shown: what was given to be saved since the latest attempt, and what that attempt
left if it and all before it came to their ends. -/
def Allows (u : Upkeep) (retention : Int) (x : Observation) : Prop :=
  x ∈ u.saves ∨ ∀ latest ∈ u.attempts.head?, (∀ attempt ∈ u.attempts, attempt.Succeeded) →
    latest.time.instant - retention ≤ x.seconds * Time.microsPerSecond

/-- A poller that started at a time is on time after some happenings. -/
structure OnTime (polling : Polling) (start : Time.DateTime) (done : List Happening)
    (u : Upkeep) : Prop where
  settings : u.poller.toPolling = polling
  idle : u.attempts = [] → start.minus? polling.retention = some u.poller.lastPruned
  last : ∀ latest ∈ u.attempts.head?, u.poller.lastPruned = latest.time
  first : u.attempts = [] ↔ ∀ now, .check now ∈ done → start.isBefore? now ≠ some true
  spaced : u.attempts.IsChain (Attempt.Follows polling.retention)
  rows : u.world.store.ShowsOnly (u.Allows polling.retention)

section

variable {polling : Polling} {start : Time.DateTime} {done : List Happening} {u : Upkeep}

theorem onTime_starting {poller : Poller} (hmake : Poller.make polling start = .ok poller)
    {committed : Table} (hsound : committed.IsSound) {plan : FaultPlan} {world : World}
    (hstore : world.store = Store.starting committed plan) :
    OnTime polling start [] (starting poller world) := by
  unfold Poller.make at hmake
  split at hmake
  · rename_i hpairs
    cases hlast : start.minus? polling.retention with
    | none => simp [hlast] at hmake
    | some lastPruned =>
      simp only [hlast, Except.ok.injEq] at hmake
      subst hmake
      refine ⟨rfl, fun _ => hlast, by simp [starting], by simp [starting], .nil, ?_⟩
      show world.store.ShowsOnly _
      rw [hstore]
      exact .of_free (Store.guarded_starting committed plan) rfl
        ⟨hsound, fun x _ => .inr (by simp [starting])⟩
  · cases hmake

namespace OnTime

/-- A pruning by the poller itself. -/
theorem checked_of_due (h : OnTime polling start done u) {now : Time.DateTime}
    (hdue : u.poller.isDue now = .ok true) :
    OnTime polling start (done ++ [.check now]) (u.checked now) := by
  have hretention : u.poller.retention = polling.retention := congrArg Polling.retention h.settings
  obtain ⟨passed, hpassed, hlong⟩ := Poller.isDue_eq_true_iff.1 hdue
  have hrows : ({ u.world with clock := now } : World).store.ShowsOnly
      (u.Allows polling.retention) := h.rows
  obtain ⟨hkept, hcleaned⟩ := u.poller.showsOnly_prune hrows now
  rw [Upkeep.checked_of_due hdue]
  generalize World.perform { u.world with clock := now } (u.poller.prune now) = out
    at hkept hcleaned
  refine ⟨h.settings, nofun, fun latest hlatest => by cases hlatest; rfl, ?_, ?_, ?_⟩
  · refine ⟨nofun, fun hnone => ?_⟩
    by_cases hidle : u.attempts = []
    · have hlast := h.idle hidle
      rw [← hretention] at hlast
      have hlater := (Poller.isDue_of_start hlast).1 hdue
      exact absurd hlater (hnone now (by simp))
    · refine absurd (h.first.2 fun other hother => hnone other ?_) hidle
      exact List.mem_append_left _ hother
  · refine h.spaced.cons fun latest hlatest => ⟨passed, ?_, hretention ▸ hlong⟩
    rw [← h.last latest hlatest]
    exact hpassed
  · by_cases hended : ∃ count, out.1 = .ok (some count)
    · obtain ⟨count, hcount⟩ := hended
      refine (hcleaned count hcount).mono fun x hx => .inr fun latest hlatest _ => ?_
      cases hlatest
      exact hretention ▸ hx.2
    · refine hkept.mono fun x _ => .inr fun latest hlatest hall => absurd ?_ hended
      exact hall latest (List.mem_of_mem_head? hlatest) |>.imp fun count hcount => by
        cases hlatest
        exact hcount

theorem checked_of_not_due (h : OnTime polling start done u) {now : Time.DateTime}
    (hnot : u.poller.isDue now ≠ .ok true) :
    OnTime polling start (done ++ [.check now]) (u.checked now) := by
  rw [Upkeep.checked_of_not_due hnot]
  refine ⟨h.settings, h.idle, h.last, ⟨fun hidle other hother => ?_, fun hnone => ?_⟩, h.spaced,
    h.rows⟩
  · rcases List.mem_append.1 hother with hold | hnew
    · exact h.first.1 hidle other hold
    · obtain rfl : other = now := by simpa using hnew
      have hlast := h.idle hidle
      rw [← h.settings] at hlast
      exact mt (Poller.isDue_of_start hlast).2 hnot
  · exact h.first.2 fun other hother => hnone other (List.mem_append_left _ hother)

/-- What others do leaves the poller and its attempts. -/
theorem others (h : OnTime polling start done u) {happening : Happening}
    (hother : ∀ now, happening ≠ .check now) {store : Store} (saves : List Observation)
    (hstore : store.ShowsOnly fun x => x ∈ saves ∨ u.Allows polling.retention x) :
    OnTime polling start (done ++ [happening])
      { u with world := { u.world with store }, saves := saves ++ u.saves } := by
  refine ⟨h.settings, h.idle, h.last, ?_, h.spaced, hstore.mono fun x hx => ?_⟩
  · rw [h.first]
    refine forall_congr' fun now => ?_
    have hsame : .check now ∈ done ++ [happening] ↔ .check now ∈ done := by
      simp [(hother now).symm]
    rw [hsame]
  · rcases hx with hnew | hold | hleft
    · exact .inl (List.mem_append_left _ hnew)
    · exact .inl (List.mem_append_right _ hold)
    · exact .inr hleft

/-- A poller stays on time, whatever happens next. -/
theorem happens (h : OnTime polling start done u) {happening : Happening}
    (hsaves : ∀ x ∈ happening.saves, x.IsReadable) :
    OnTime polling start (done ++ [happening]) (u.happens happening) := by
  cases happening with
  | check now =>
    by_cases hdue : u.poller.isDue now = .ok true
    · exact h.checked_of_due hdue
    · exact h.checked_of_not_due hdue
  | use use =>
    have hgrown : u.world.store.ShowsOnly fun x =>
        x ∈ (Happening.use use).saves ∨ u.Allows polling.retention x :=
      h.rows.mono fun x hx => .inr hx
    refine h.others (by simp) _ (hgrown.use fun b x huse => ?_)
    have hx : x ∈ (Happening.use use).saves := by
      rw [huse]
      exact List.mem_singleton_self x
    exact ⟨hsaves x hx, .inl hx⟩
  | prune cutoff wait =>
    have hpruned := (h.rows.prune cutoff wait).1
    exact h.others (by simp) [] (hpruned.mono fun x hx => .inr hx)

end OnTime

/-- A poller is on time after any happenings. -/
theorem onTime_after (h : OnTime polling start [] u) (happenings : List Happening)
    (hsaves : ∀ x ∈ happenings.flatMap Happening.saves, x.IsReadable) :
    OnTime polling start happenings (u.after happenings) := by
  induction happenings using List.reverseRecOn with
  | nil => exact h
  | append_singleton done happening ih =>
    rw [List.flatMap_append, List.forall_mem_append, List.flatMap_singleton] at hsaves
    have hdone := (ih hsaves.1).happens hsaves.2
    unfold after at hdone ⊢
    rw [List.foldl_append]
    exact hdone

end

/-- A poller checks at any readings of the clock whether pruning is due, while others use its store
in between in any way and prune it as well, and any calls of the engine fail. A check does nothing
but read the clock, or it is an attempt to prune at that reading. There is no attempt before the
first check that is later than the start of the poller, and that check is one. Any two attempts
after one another are more than the retention apart. If all attempts so far came to their ends and
there was one, then after a check at a reading that can be compared with them a full scan succeeds,
unless the engine fails, and shows nothing older than twice the retention but what was given to be
saved since the latest attempt. -/
theorem prunes_in_time {polling : Polling} {start : Time.DateTime} {poller : Poller}
    (hmake : Poller.make polling start = .ok poller) (hretention : 0 ≤ polling.retention)
    {committed : Table} (hsound : committed.IsSound) {plan : FaultPlan} {world : World}
    (hstore : world.store = Store.starting committed plan) (happenings : List Happening)
    (hsaves : ∀ x ∈ happenings.flatMap Happening.saves, x.IsReadable) :
    let u := (starting poller world).after happenings
    (u.attempts = [] ↔ ∀ now, .check now ∈ happenings → start.isBefore? now ≠ some true) ∧
    u.attempts.IsChain (Attempt.Follows polling.retention) ∧
    ∀ now, let checked := u.happens (.check now)
      (checked.attempts = u.attempts ∧ checked.world = { u.world with clock := now } ∨
        ∃ result, checked.attempts = ⟨now, result⟩ :: u.attempts ∧
          (result, checked.world) =
            World.perform { u.world with clock := now } (u.poller.prune now)) ∧
      ∀ latest earlier, checked.attempts = latest :: earlier →
        (∀ attempt ∈ checked.attempts, attempt.Succeeded) →
        now.comparable latest.time = true →
          ∃ list, checked.world.store.Reads .committed (Cursor.all .committed).toList (.ok list) ∧
            ∀ x ∈ list, x ∈ checked.saves ∨
              now.instant - 2 * polling.retention ≤ x.seconds * Time.microsPerSecond := by
  intro u
  have h : OnTime polling start happenings u :=
    onTime_after (onTime_starting hmake hsound hstore) happenings hsaves
  refine ⟨h.first, h.spaced, fun now => ?_⟩
  intro checked
  by_cases hdue : u.poller.isDue now = .ok true
  · have hchecked : OnTime polling start _ checked := h.checked_of_due hdue
    have heq : checked = _ := checked_of_due hdue
    obtain ⟨list, hscan, hlist⟩ := hchecked.rows.scan
    refine ⟨.inr ⟨_, by rw [heq], by rw [heq]⟩, fun latest earlier hcons hended _ => ?_⟩
    refine ⟨list, hscan, fun x hx => (hlist x hx).imp_right fun hleft => ?_⟩
    have hbound := hleft latest (by rw [hcons]; rfl) hended
    have hlatest : latest.time = now := by
      rw [heq] at hcons
      rw [← (List.cons.inj hcons).1]
    rw [hlatest] at hbound
    omega
  · have hchecked : OnTime polling start _ checked := h.checked_of_not_due hdue
    have heq : checked = _ := checked_of_not_due hdue
    obtain ⟨list, hscan, hlist⟩ := hchecked.rows.scan
    refine ⟨.inl ⟨by rw [heq], by rw [heq]⟩, fun latest earlier hcons hended hcomparable => ?_⟩
    refine ⟨list, hscan, fun x hx => (hlist x hx).imp_right fun hleft => ?_⟩
    have hhead : latest ∈ checked.attempts.head? := by
      rw [hcons]
      rfl
    have hbound := hleft latest hhead hended
    have hlast := hchecked.last latest hhead
    rw [heq] at hlast
    rw [← show u.poller.lastPruned = latest.time from hlast] at hbound hcomparable
    have hpassed := Poller.le_of_not_due hdue hcomparable
    rw [show u.poller.retention = _ from congrArg Polling.retention h.settings] at hpassed
    omega

/-- A reading some seconds after one o'clock, when `Poller.hourly` was started. -/
def pastOne (seconds : Nat) (h : seconds ≤ 86400) : Time.DateTime where
  wall := (1717246800 + seconds) * Time.microsPerSecond
  offset := some 0
  lower := by unfold Time.minWall Time.epochDay Time.microsPerDay Time.microsPerSecond; omega
  upper := by unfold Time.maxWall Time.maxSecond Time.microsPerSecond; omega

/-- An observation of ten past twelve. -/
def tenPastTwelve : Observation := { Store.early with seconds := 1717243800, inTime := by decide }

/-- An observation of ten past twelve is there when the poller is started. An hour after its first
pruning it does not prune yet, a second later it does; and then a very old observation is saved. -/
def afternoon : List Happening :=
  [.use (.call (.openBatch ⟨0⟩)), .use (.call (.edit 0 (.save tenPastTwelve))),
    .use (.call (.commit 0)), .check (pastOne 0 (Nat.zero_le _)), .check (pastOne 1 (by decide)),
    .prune Store.epoch ⟨0⟩, .check (pastOne 3601 (by decide)), .check (pastOne 3602 (by decide)),
    .use (.call (.openBatch ⟨0⟩)), .use (.call (.edit 4 (.save Store.early))),
    .use (.call (.commit 4))]

/-- A world with an empty store whose source fails. -/
def quiet : World where
  store := Store.starting .empty fun _ _ => none
  source := fun _ _ _ => .error (.refused "simulated")
  asked := []
  clock := pastOne 0 (Nat.zero_le _)

/-- Of the checks of the afternoon two were attempts, of which the second removed the observation of
ten past twelve, and what is older than two hours at half past two was saved after them. -/
theorem prunes_in_time_afternoon :
    let u := (starting Poller.hourly quiet).after afternoon
    let halfPastTwo := pastOne 5400 (by decide)
    let checked := u.happens (.check halfPastTwo)
    u.attempts.map Attempt.time = [pastOne 3602 (by decide), pastOne 1 (by decide)] ∧
    u.attempts.IsChain (Attempt.Follows Poller.hourly.retention) ∧
    checked.attempts.map Attempt.time = u.attempts.map Attempt.time ∧
    checked.attempts.map (·.result.toOption) = [some (some 1), some (some 0)] ∧
    ∃ list, checked.world.store.Reads .committed (Cursor.all .committed).toList (.ok list) ∧
      tenPastTwelve ∉ list ∧ ∀ x ∈ list, x ∈ [Store.early] ∨
        halfPastTwo.instant - 2 * Poller.hourly.retention ≤ x.seconds * Time.microsPerSecond := by
  intro u halfPastTwo checked
  have hmake : Poller.make Poller.hourly.toPolling (pastOne 0 (Nat.zero_le _)) =
      .ok Poller.hourly := by
    rfl
  have hsound : Table.empty.IsSound := nofun
  have hstore : quiet.store = Store.starting .empty fun _ _ => none := rfl
  have hsaves : ∀ x ∈ afternoon.flatMap Happening.saves, x.IsReadable := by
    intro x hx
    rcases List.mem_pair.1 hx with rfl | rfl
    · exact ⟨by decide, by decide⟩
    · exact ⟨by decide, by decide⟩
  obtain ⟨-, hspaced, hchecks⟩ :=
    prunes_in_time hmake (by decide) hsound hstore afternoon hsaves
  have hscan := (hchecks halfPastTwo).2
  have htimes : u.attempts.map Attempt.time =
      [pastOne 3602 (by decide), pastOne 1 (by decide)] := by decide +kernel
  have hsame : checked.attempts.map Attempt.time = u.attempts.map Attempt.time := by decide +kernel
  have hresults : checked.attempts.map (·.result.toOption) = [some (some 1), some (some 0)] := by
    decide +kernel
  have hlate : checked.saves = [Store.early] := by decide +kernel
  refine ⟨htimes, hspaced, hsame, hresults, ?_⟩
  have hchecked : ((starting Poller.hourly quiet).after afternoon).happens (.check halfPastTwo) =
      checked := rfl
  rw [hchecked, hlate] at hscan
  rw [htimes] at hsame
  clear_value checked
  have hsucceeded : ∀ attempt ∈ checked.attempts, attempt.Succeeded := by
    intro attempt hattempt
    have hresult := List.mem_map_of_mem (f := fun a : Attempt => a.result.toOption) hattempt
    rw [hresults] at hresult
    unfold Attempt.Succeeded
    cases hended : attempt.result with
    | error failure => simp [hended, Except.toOption] at hresult
    | ok told =>
      cases told with
      | none => simp [hended, Except.toOption] at hresult
      | some count => exact ⟨count, rfl⟩
  cases hattempts : checked.attempts with
  | nil => simp [hattempts] at hresults
  | cons latest earlier =>
    have htime : latest.time = pastOne 3602 (by decide) := by
      rw [hattempts] at hsame
      exact (List.cons.inj hsame).1
    obtain ⟨list, hread, hleft⟩ := hscan latest earlier hattempts hsucceeded (by rw [htime]; rfl)
    refine ⟨list, hread, fun hmem => ?_, hleft⟩
    exact absurd (hleft tenPastTwelve hmem) (by decide)

end Upkeep

end RateLedger
