import RateLedger.Proofs.Contents
import RateLedger.Proofs.Rounds

/-!
# Ticks that keep all pairs

An answer is kept under the codes that it carries, and a tick counts it for the pair that was asked
for. So the count of a tick says how many answers were kept, not that the pairs can be read. What a
pair needs for that is an observation of its own, from this tick or from before, that the pruning at
the end of the tick does not remove. Then its identity row shows that observation or a later one:
saving keeps this (`KnowsSince.saved`), clearing older ones does too (`KnowsSince.cleared`), and so
a whole tick does (`full_tick_readable`).
-/

namespace RateLedger

/-- The identity key of a pair is not the key of any observation. -/
def Key.IsReserved (pairId : String) : Prop :=
  ∀ x : Observation, Key.ofObservation x ≠ Key.identity pairId

theorem Key.isReserved_of_isPlain {pairId : String} (h : IsPlain pairId) : IsReserved pairId :=
  fun x => timed_ne_identity (Bytes.isModerate_second x.inTime) h

/-! ## What a table knows of a pair -/

namespace Table

/-- The identity row of a pair records an observation that is no earlier than a second. -/
def KnowsSince (table : Table) (pairId : String) (second : Nat) : Prop :=
  ∃ y, table.newest? pairId = some y ∧ second ≤ y.seconds

section

variable {table : Table} {pairId : String} {second : Nat} {x y : Observation}

/-- What is read for a pair is of this pair. -/
theorem pairId_of_readNewest (h : table.readNewest pairId = .ok y) : y.pairId = pairId := by
  unfold readNewest at h
  cases hlookup : table.lookup (Key.identity pairId) with
  | none => simp [hlookup] at h
  | some value =>
    cases hread : readRecord value with
    | error fault => simp [hlookup, hread, bind, Except.bind] at h
    | ok x =>
      by_cases hpair : x.pairId = pairId
      · simp only [hlookup, hread, bind, Except.bind, if_pos hpair, Except.ok.injEq] at h
        exact h ▸ hpair
      · simp [hlookup, hread, bind, Except.bind, hpair] at h

/-- On sound rows a pair with an identity key of its own is read as its identity row records it. -/
theorem IsSound.readNewest_eq_ok_iff (h : table.IsSound) (hp : Key.IsReserved pairId) :
    table.readNewest pairId = .ok y ↔ table.newest? pairId = some y := by
  unfold readNewest newest?
  cases hlookup : table.lookup (Key.identity pairId) with
  | none => simp
  | some value =>
    obtain ⟨z, hdecode, hkey⟩ := h.of_lookup hlookup
    have hpair : z.pairId = pairId := by
      rcases hkey with hown | hidentity
      · exact absurd hown.symm (hp z)
      · exact (Key.identity_inj.1 hidentity).symm
    simp [readRecord_eq_ok_iff.2 hdecode, hdecode, hpair, Except.toOption, bind, Except.bind]

theorem newest?_insert_own (table : Table) (hp : Key.IsReserved pairId) (x : Observation)
    (value : Bytes) :
    (table.insert (Key.ofObservation x) value).newest? pairId = table.newest? pairId := by
  apply newest?_congr
  rw [lookup_insert, if_neg (hp x).symm]

/-- Saving makes an observation the newest of its pair unless a later one is, and leaves the others.
-/
theorem newest?_saved (table : Table) (hp : Key.IsReserved pairId) (hx : x.IsReadable) :
    (table.saved x).newest? pairId =
      if x.pairId = pairId ∧ (table.newest? pairId).all (·.seconds ≤ x.seconds) then some x
      else table.newest? pairId := by
  have hentered := newest?_insert_own table hp x x.toRecord
  unfold saved
  dsimp only
  generalize table.insert (Key.ofObservation x) x.toRecord = entered at hentered ⊢
  rw [← hentered]
  by_cases hpair : x.pairId = pairId
  · subst hpair
    by_cases hall : (entered.newest? x.pairId).all (·.seconds ≤ x.seconds) = true
    · rw [if_pos hall, if_pos ⟨rfl, hall⟩]
      unfold newest? Key.ofPair
      rw [lookup_insert, if_pos rfl, Option.bind_some, Record.decode_toRecord hx]
      rfl
    · simp [hall]
  · simp only [hpair, false_and, if_false]
    split
    · apply newest?_congr
      exact lookup_insert_identity _ (Ne.symm hpair) _
    · rfl

theorem KnowsSince.mono {earlier : Nat} (h : table.KnowsSince pairId second)
    (hle : earlier ≤ second) : table.KnowsSince pairId earlier := by
  obtain ⟨y, hy, hsecond⟩ := h
  exact ⟨y, hy, Nat.le_trans hle hsecond⟩

/-- What is known stays known when an observation is saved. -/
theorem KnowsSince.saved (h : table.KnowsSince pairId second) (hp : Key.IsReserved pairId)
    (hx : x.IsReadable) : (table.saved x).KnowsSince pairId second := by
  obtain ⟨y, hy, hsecond⟩ := h
  unfold KnowsSince
  rw [newest?_saved table hp hx, hy]
  by_cases hlater : x.pairId = pairId ∧ (some y).all (·.seconds ≤ x.seconds) = true
  · rw [if_pos hlater]
    have hle : y.seconds ≤ x.seconds := by simpa using hlater.2
    exact ⟨x, rfl, Nat.le_trans hsecond hle⟩
  · rw [if_neg hlater]
    exact ⟨y, rfl, hsecond⟩

/-- What was saved is known. -/
theorem knowsSince_saved (table : Table) (hp : Key.IsReserved x.pairId) (hx : x.IsReadable) :
    (table.saved x).KnowsSince x.pairId x.seconds := by
  unfold KnowsSince
  rw [newest?_saved table hp hx]
  cases hnewest : table.newest? x.pairId with
  | none => exact ⟨x, by simp, Nat.le_refl _⟩
  | some y =>
    by_cases hle : y.seconds ≤ x.seconds
    · exact ⟨x, by simp [hle], Nat.le_refl _⟩
    · exact ⟨y, by simp [hle], by omega⟩

/-- After some savings on sound rows it is known what was before, and what was saved. -/
theorem knowsSince_foldl (hsound : table.IsSound) {list : List Observation}
    (hreadable : ∀ x ∈ list, x.IsReadable) (hp : Key.IsReserved pairId)
    (h : table.KnowsSince pairId second ∨ ∃ x ∈ list, x.pairId = pairId ∧ second ≤ x.seconds) :
    (list.foldl withSaved table).IsSound ∧
      (list.foldl withSaved table).KnowsSince pairId second := by
  induction list generalizing table with
  | nil =>
    refine ⟨hsound, h.resolve_right ?_⟩
    rintro ⟨x, hx, -⟩
    cases hx
  | cons x rest ih =>
    obtain ⟨hx, hrest⟩ := List.forall_mem_cons.1 hreadable
    rw [List.foldl_cons, hsound.withSaved hx]
    refine ih (hsound.saved hx) hrest ?_
    rcases h with hbefore | ⟨y, hy, hpair, hle⟩
    · exact .inl (hbefore.saved hp hx)
    · rcases List.mem_cons.1 hy with rfl | hy
      · subst hpair
        exact .inl ((knowsSince_saved table hp hx).mono hle)
      · exact .inr ⟨y, hy, hpair, hle⟩

/-- The newest observation of a pair stays when others are deleted. -/
theorem newest?_deleted (hp : Key.IsReserved pairId) (h : table.newest? pairId = some y)
    (hother : x.pairId = pairId → x.seconds ≠ y.seconds) :
    (table.deleted x.pairId x.seconds).newest? pairId = some y := by
  have hleft : (table.erase (Key.ofObservation x)).newest? pairId = some y := by
    rw [← h]
    apply newest?_congr
    rw [lookup_erase, if_neg (hp x).symm]
  have hown : Key.timed x.pairId x.seconds = Key.ofObservation x := rfl
  unfold deleted
  dsimp only
  rw [hown]
  generalize table.erase (Key.ofObservation x) = left at hleft ⊢
  by_cases hpair : x.pairId = pairId
  · subst hpair
    rw [hleft, if_neg]
    · exact hleft
    · simpa [eq_comm] using hother rfl
  · rw [← hleft]
    split
    · split
      · apply newest?_congr
        exact lookup_erase_identity _ (Ne.symm hpair)
      · apply newest?_congr
        exact lookup_insert_identity _ (Ne.symm hpair) _
    · rfl

theorem newest?_cleared (hp : Key.IsReserved pairId) (h : table.newest? pairId = some y)
    {list : List Observation} (hothers : ∀ x ∈ list, x.pairId = pairId → x.seconds ≠ y.seconds) :
    (table.cleared list).newest? pairId = some y := by
  induction list generalizing table with
  | nil => exact h
  | cons x rest ih =>
    obtain ⟨hx, hrest⟩ := List.forall_mem_cons.1 hothers
    exact ih (newest?_deleted hp h hx) hrest

theorem IsSound.cleared (h : table.IsSound) (list : List Observation) :
    (table.cleared list).IsSound := by
  induction list generalizing table with
  | nil => exact h
  | cons x rest ih => exact ih (h.deleted x.pairId x.seconds)

/-- Clearing what is older than a cutoff leaves what is known since then. -/
theorem KnowsSince.cleared (h : table.KnowsSince pairId x.seconds) (hp : Key.IsReserved pairId)
    {cutoff : Time.DateTime} (hyoung : x.isOlder cutoff = false) (shown : List Observation) :
    (table.cleared (shown.filter (·.isOlder cutoff))).KnowsSince pairId x.seconds := by
  obtain ⟨y, hy, hle⟩ := h
  refine ⟨y, newest?_cleared hp hy fun z hz _ heq => ?_, hle⟩
  have hold := (List.mem_filter.1 hz).2
  simp only [Observation.isOlder, decide_eq_true_eq, decide_eq_false_iff_not] at hold hyoung
  have hscaled : (x.seconds : Int) * Time.microsPerSecond ≤ y.seconds * Time.microsPerSecond :=
    Int.mul_le_mul_of_nonneg_right (Int.ofNat_le.2 hle) (by decide)
  rw [heq] at hold
  omega

end

end Table

/-! ## Stores that can be reached -/

namespace Store

/-- A store that a new one comes to by being used, pruned and opened again, where all that is saved
can be read back. -/
inductive IsReached : Store → Prop
  | fresh (plan : FaultPlan) : IsReached { Store.fresh with plan }
  | used {s : Store} (h : IsReached s) (use : Use)
    (readable : ∀ b x, use = .call (.edit b (.save x)) → x.IsReadable) :
    IsReached (s.perform use.step).2
  | pruned {s : Store} (h : IsReached s) (cutoff : Time.DateTime) (wait : Binary64) :
    IsReached (s.perform (prune cutoff wait)).2
  | noted {s : Store} (h : IsReached s) (journal : Journal) : IsReached { s with journal }
  | reopened {s : Store} (h : IsReached s) (plan : FaultPlan) :
    IsReached (starting s.committed plan)

theorem showsOnly_starting {committed : Table} (h : committed.IsSound) (plan : FaultPlan) :
    (starting committed plan).ShowsOnly fun _ => True :=
  .of_free (guarded_starting committed plan) rfl ⟨h, fun _ _ => trivial⟩

theorem IsReached.showsOnly {s : Store} (h : s.IsReached) : s.ShowsOnly fun _ => True := by
  induction h with
  | fresh plan => exact showsOnly_starting (isSound_fresh plan).committed plan
  | used h use readable ih => exact ih.use fun b x huse => ⟨readable b x huse, trivial⟩
  | pruned h cutoff wait ih => exact (ih.prune cutoff wait).1
  | noted h journal ih => exact ih.withJournal journal
  | reopened h plan ih => exact showsOnly_starting ih.committed.sound plan

theorem IsReached.isSound {s : Store} (h : s.IsReached) : s.committed.IsSound :=
  h.showsOnly.committed.sound

end Store

/-! ## Reading the pairs together -/

namespace Service

variable {world : World} {pairId : String} {y : Observation}

/-- Reading what the committed rows have for a pair gives that, unless the engine fails. -/
theorem perform_newest (h : world.store.committed.readNewest pairId = .ok y) :
    let out := world.perform (newest pairId)
    out.2.store.committed = world.store.committed ∧
      (out.1 = .ok y ∨ ∃ fault, out.1 = .error (.store fault) ∧ fault.isOutage = true) := by
  intro out
  have hout : out = _ := World.perform_onStore world (Store.newest .committed pairId)
  have hview : world.store.CanRead .committed := trivial
  have hreads := (Store.reads_newest hview pairId).run world.store.trace
  rw [show world.store.table .committed = world.store.committed from rfl, h,
    show world.store.withTrace world.store.trace = world.store from rfl] at hreads
  obtain ⟨events, ⟨-, hrun⟩ | ⟨-, -, fault, mid, ⟨houtage, rfl⟩, hrun⟩⟩ := hreads
  · rw [hout, hrun]
    exact ⟨rfl, .inl rfl⟩
  · rw [hout, hrun]
    exact ⟨rfl, .inr ⟨fault, rfl, houtage⟩⟩

theorem perform_mapM_newest {pairs : List Pair} (world : World)
    (h : ∀ pair ∈ pairs, ∃ y, world.store.committed.readNewest pair.id = .ok y) :
    let given := (world.perform (pairs.mapM fun pair => newest pair.id)).1
    (∃ list, given = .ok list ∧
      ∀ pair ∈ pairs, ∃ y ∈ list, world.store.committed.readNewest pair.id = .ok y) ∨
      ∃ fault, given = .error (.store fault) ∧ fault.isOutage = true := by
  induction pairs generalizing world with
  | nil => exact .inl ⟨[], rfl, nofun⟩
  | cons pair rest ih =>
    intro given
    obtain ⟨⟨y, hy⟩, hrest⟩ := List.forall_mem_cons.1 h
    have hgiven : given = _ := congrArg Prod.fst (congrArg world.perform List.mapM_cons)
    obtain ⟨hsame, hok | ⟨fault, hfault, houtage⟩⟩ := perform_newest hy
    · have hlater := ih (world.perform (newest pair.id)).2 fun other hother =>
        hsame ▸ hrest other hother
      rw [hsame] at hlater
      rw [World.perform_bind_of_ok hok] at hgiven
      rcases hlater with ⟨list, hlist, hfound⟩ | ⟨fault, hfault, houtage⟩
      · rw [World.perform_bind_of_ok hlist] at hgiven
        refine .inl ⟨y :: list, hgiven, List.forall_mem_cons.2 ⟨⟨y, List.mem_cons_self, hy⟩, ?_⟩⟩
        intro other hother
        obtain ⟨z, hz, hread⟩ := hfound other hother
        exact ⟨z, List.mem_cons_of_mem y hz, hread⟩
      · rw [World.perform_bind_of_error hfault] at hgiven
        exact .inr ⟨fault, hgiven, houtage⟩
    · rw [World.perform_bind_of_error hfault] at hgiven
      exact .inr ⟨fault, hgiven, houtage⟩

/-- Pairs that can all be read are given out together, unless the engine fails. -/
theorem perform_newestOfAll (service : Service)
    (h : ∀ pair ∈ service.aggregated, ∃ y, world.store.committed.readNewest pair.id = .ok y) :
    let given := (world.perform service.newestOfAll).1
    (∃ list, given = .ok list ∧ ∀ pair ∈ service.aggregated,
      ∃ y ∈ list, world.store.committed.readNewest pair.id = .ok y) ∨
      ∃ fault, given = .error (.store fault) ∧ fault.isOutage = true := by
  intro given
  have hgiven : given = _ := congrArg Prod.fst (World.perform_map world latestFirst _)
  rw [hgiven]
  rcases perform_mapM_newest world h with ⟨found, hok, hfound⟩ | ⟨fault, hfault, houtage⟩
  · rw [hok]
    refine .inl ⟨latestFirst found, rfl, fun pair hpair => ?_⟩
    obtain ⟨y, hy, hread⟩ := hfound pair hpair
    exact ⟨y, (latestFirst_perm found).mem_iff.2 hy, hread⟩
  · rw [hfault]
    exact .inr ⟨fault, rfl, houtage⟩

end Service

/-! ## The pruning of a tick -/

namespace Poller

variable {poller : Poller} {world : World}

/-- What a pruning that does not fail does: it leaves the committed rows, or it removes what is
older than the retention and tells how much that was. -/
def Prunes (poller : Poller) (before : World) (told : Option Nat) (after : World) : Prop :=
  after.store.committed = before.store.committed ∨
    told.isSome = true ∧ ∃ cutoff, before.clock.minus? poller.retention = some cutoff ∧
      after.store.committed = before.store.committed.cleared
        ((before.store.committed.rows.filterMap shown?).filter (·.isOlder cutoff))

theorem prunes_of_prune (hsound : world.store.committed.IsSound) {told : Option Nat}
    (h : (world.perform (poller.prune world.clock)).1 = .ok told) :
    poller.Prunes world told (world.perform (poller.prune world.clock)).2 := by
  cases hcutoff : world.clock.minus? poller.retention with
  | none =>
    rw [prune_eq, hcutoff] at h
    cases h
  | some cutoff =>
    have hprune : poller.prune world.clock = poller.pruneTo cutoff := by
      rw [prune_eq, hcutoff]
      rfl
    obtain ⟨journal, hrun⟩ := poller.perform_pruneTo cutoff world
    have hcases := Store.prune_cases hsound cutoff poller.wait
    rw [hprune, hrun] at h
    rw [hprune, hrun]
    generalize world.store.perform (Store.prune cutoff poller.wait) = out at h hcases ⊢
    obtain ⟨result, store⟩ := out
    dsimp only at h hcases ⊢
    rcases hcases with ⟨rfl, -⟩ | ⟨-, ⟨hcleared, hbackend⟩ | ⟨hsame, -⟩⟩
    · exact .inl rfl
    · refine .inr ⟨?_, cutoff, hcutoff, hcleared⟩
      -- After a commit only a session can fail, which the pruning fails with itself.
      cases result with
      | ok count =>
        cases h
        rfl
      | error fault => simp [hbackend fault rfl] at h
    · exact .inl hsame

theorem prunes_of_pruneIfDue (hsound : world.store.committed.IsSound) {told : Option Nat}
    (h : (poller.pruneIfDue.run world).1.1 = .ok told) :
    poller.Prunes world told (poller.pruneIfDue.run world).2 := by
  rw [run_pruneIfDue] at h ⊢
  cases hdue : poller.isDue world.clock with
  | error failure =>
    rw [hdue] at h
    cases h
  | ok due =>
    rw [hdue] at h
    cases due with
    | false => exact .inl rfl
    | true => exact prunes_of_prune hsound h

end Poller

/-! ## Ticks that count all pairs -/

/-- The source gives an observation for each of some pairs. -/
def World.Gives (world : World) : List Pair → List Observation → Prop :=
  List.Forall₂ fun pair x => ∃ asked, world.source world.clock asked pair = .ok (x : Sighting)

theorem World.Gives.exists_of_mem {world : World} {pairs : List Pair} {found : List Observation}
    (h : world.Gives pairs found) {pair : Pair} (hpair : pair ∈ pairs) :
    ∃ x ∈ found, ∃ asked, world.source world.clock asked pair = .ok (x : Sighting) := by
  unfold Gives at h
  induction h with
  | nil => cases hpair
  | cons hfirst hrest ih =>
    rcases List.mem_cons.1 hpair with rfl | hpair
    · exact ⟨_, List.mem_cons_self, hfirst⟩
    · obtain ⟨x, hx, hanswer⟩ := ih hpair
      exact ⟨x, List.mem_cons_of_mem _ hx, hanswer⟩

theorem World.Gives.readable {world : World} {pairs : List Pair} {found : List Observation}
    (h : world.Gives pairs found)
    (hreadable : ∀ asked, ∀ pair ∈ pairs, ∀ x : Observation,
      world.source world.clock asked pair = .ok (x : Sighting) → x.IsReadable) :
    ∀ x ∈ found, x.IsReadable := by
  unfold Gives at h
  induction h with
  | nil => exact nofun
  | cons hfirst hrest ih =>
    obtain ⟨asked, hanswer⟩ := hfirst
    refine List.forall_mem_cons.2 ⟨hreadable asked _ List.mem_cons_self _ hanswer, ih ?_⟩
    exact fun asked pair hpair => hreadable asked pair (List.mem_cons_of_mem _ hpair)

namespace Poller

variable {poller : Poller} {world : World}

/-- A round of a poller comes to its end, its tasks having taken turns in some order. They kept some
observations, and leave a world. -/
def RoundsTo (poller : Poller) (world : World) (found : List Observation) (left : World) : Prop :=
  ∃ schedule,
    let progress := (poller.started world).after poller schedule
    progress.IsOver ∧ progress.kept.map Kept.observation = found ∧
      ∃ journal, left = { progress.world with store := { progress.world.store with journal } }

/-- The tasks of a round kept an answer for each of their pairs, if they all kept one. -/
theorem gives_of_kept {tasks : List Task}
    (hkept : ∀ task ∈ tasks, task.stage.kept?.isSome = true)
    (hsourced : ∀ task ∈ tasks, IsSourced world task) :
    world.Gives (tasks.map Task.pair)
      ((tasks.filterMap (·.stage.kept?)).map Kept.observation) := by
  induction tasks with
  | nil => exact .nil
  | cons task rest ih =>
    obtain ⟨hfirst, hrest⟩ := List.forall_mem_cons.1 hkept
    obtain ⟨hsource, hsources⟩ := List.forall_mem_cons.1 hsourced
    obtain ⟨kept, hended⟩ := Option.isSome_iff_exists.1 hfirst
    rw [List.filterMap_cons, hended]
    refine .cons (hsource kept.observation ?_) (ih hrest hsources)
    cases hstage : task.stage with
    | ended other =>
      rw [hstage] at hended
      obtain rfl : other = some kept := hended
      rfl
    | _ =>
      rw [hstage] at hended
      cases hended

/-- A round that kept as many observations as it has pairs kept an answer of the source for each of
them, and nothing else. -/
theorem RoundsTo.kept_all {found : List Observation} {left : World}
    (h : poller.RoundsTo world found left) (hlength : found.length = poller.pairs.length) :
    left.clock = world.clock ∧ world.Gives poller.pairs found ∧
    ∃ order : List Observation, order.Perm found ∧
      left.store.committed = order.foldl Table.withSaved world.store.committed := by
  obtain ⟨schedule, -, rfl, journal, rfl⟩ := h
  have hpairs := pairs_started_after poller world schedule
  have hbooks := accounts_of_kept poller world schedule
  generalize (poller.started world).after poller schedule = progress at *
  rw [← hpairs, List.length_map, List.length_map] at hlength
  have hkept : ∀ task ∈ progress.tasks, task.stage.kept?.isSome = true :=
    List.filterMap_length_eq_length.1 hlength
  obtain ⟨⟨order, hbooks⟩, hsourced⟩ := hbooks fun task htask hended => by
    have hsome := hkept task htask
    rw [hended] at hsome
    cases hsome
  rw [← hpairs]
  exact ⟨hbooks.setting.clock, gives_of_kept hkept hsourced, _,
    hbooks.kept.map Kept.observation, hbooks.committed⟩

/-- A tick, whose tasks take turns in any order, gives a count: they kept `found`, and the pruning
after that does not fail, tells `told`, and leaves a world. -/
def TicksTo (poller : Poller) (world : World) (found : List Observation) (told : Option Nat)
    (after : World) : Prop :=
  ∃ left, poller.RoundsTo world found left ∧
    let pruned := poller.pruneIfDue.run left
    pruned.1.1 = .ok told ∧ after = pruned.2

/-- The tasks of a tick take turns in one of these orders, and its count is that of what they kept.
-/
theorem ticksTo_tick {saved : Nat} (h : (poller.tick.run world).1.1 = .ok saved) :
    ∃ found told, found.length = saved ∧
      poller.TicksTo world found told (poller.tick.run world).2 := by
  have harrange : ∀ found : List Fetched, (id found).Perm found := List.Perm.refl
  obtain ⟨schedule, hover, journal, hround⟩ := poller.reaches_round world harrange
  obtain ⟨count, hcount, htick⟩ := poller.run_tick_eq world
  generalize world.perform (poller.round id) = out at hround hcount htick
  obtain ⟨result, left⟩ := out
  obtain ⟨hresult, hleft⟩ := Prod.mk.inj hround
  rw [htick] at h ⊢
  dsimp only at h hcount ⊢
  obtain ⟨told, htold, rfl⟩ :
      ∃ told, (poller.pruneIfDue.run left).1.1 = .ok told ∧ count = saved := by
    generalize (poller.pruneIfDue.run left).1.1 = pruned at h ⊢
    cases pruned with
    | error failure => cases h
    | ok told => exact ⟨told, rfl, Except.ok.inj h⟩
  have hsaved := Except.ok.inj (hresult.symm.trans hcount)
  exact ⟨_, told, (List.length_map _).trans hsaved, left, ⟨schedule, hover, rfl, journal, hleft⟩,
    htold, rfl⟩

/-- An observation that outlasts a tick which kept `found` and whose pruning told `told`: it is one
of these, or was read for its pair before, and the pruning, if it came to its end, does not remove
it. -/
structure Lasts (poller : Poller) (world : World) (found : List Observation) (told : Option Nat)
    (z : Observation) : Prop where
  reserved : Key.IsReserved z.pairId
  known : z ∈ found ∨ world.store.committed.readNewest z.pairId = .ok z
  young : told.isSome = true →
    ∀ cutoff, world.clock.minus? poller.retention = some cutoff → z.isOlder cutoff = false

/-- What a full tick leaves for the pair of an observation that outlasts it. -/
theorem TicksTo.readNewest {found : List Observation} {told : Option Nat} {after : World}
    (h : poller.TicksTo world found told after) (hlength : found.length = poller.pairs.length)
    (hsound : world.store.committed.IsSound)
    (hreadable : ∀ asked, ∀ pair ∈ poller.pairs, ∀ x : Observation,
      world.source world.clock asked pair = .ok (x : Sighting) → x.IsReadable) :
    world.Gives poller.pairs found ∧ ∀ z, poller.Lasts world found told z →
      ∃ y, z.seconds ≤ y.seconds ∧ after.store.committed.readNewest z.pairId = .ok y := by
  obtain ⟨left, hrounds, htold, rfl⟩ := h
  obtain ⟨hclock, hgives, order, hperm, hrows⟩ := hrounds.kept_all hlength
  refine ⟨hgives, fun z hz => ?_⟩
  have hfound : ∀ x ∈ order, x.IsReadable := fun x hx =>
    hgives.readable hreadable x (hperm.mem_iff.1 hx)
  have hbefore : world.store.committed.KnowsSince z.pairId z.seconds ∨
      ∃ x ∈ order, x.pairId = z.pairId ∧ z.seconds ≤ x.seconds := by
    rcases hz.known with hmem | hread
    · exact .inr ⟨z, hperm.mem_iff.2 hmem, rfl, Nat.le_refl _⟩
    · exact .inl ⟨z, (hsound.readNewest_eq_ok_iff hz.reserved).1 hread, Nat.le_refl _⟩
  obtain ⟨hleft, hknows⟩ := Table.knowsSince_foldl hsound hfound hz.reserved hbefore
  rw [← hrows] at hleft hknows
  obtain ⟨hafter, y, hy, hle⟩ : (poller.pruneIfDue.run left).2.store.committed.IsSound ∧
      (poller.pruneIfDue.run left).2.store.committed.KnowsSince z.pairId z.seconds := by
    rcases prunes_of_pruneIfDue hleft htold with hsame | ⟨hsome, cutoff, hcutoff, hcleared⟩
    · rw [hsame]
      exact ⟨hleft, hknows⟩
    · rw [hclock] at hcutoff
      rw [hcleared]
      exact ⟨hleft.cleared _, hknows.cleared hz.reserved (hz.young hsome cutoff hcutoff) _⟩
  exact ⟨y, hle, (hafter.readNewest_eq_ok_iff hz.reserved).2 hy⟩

/-- A tick that gives the number of its pairs, in whatever order its tasks take turns and whatever
the engine does, has kept an answer for each of them, under the codes that the answer carries. For
every such answer, and for every observation that was read for its pair before, its pair is read
afterwards as an observation that is no earlier, unless the pruning at the end of the tick came to
its end and removes it, or the identity key of the pair is the key of another observation. Pairs
with such observations are given out together without one that is not found. -/
theorem full_tick_readable (poller : Poller) (world : World) (hreached : world.store.IsReached)
    (hreadable : ∀ asked, ∀ pair ∈ poller.pairs, ∀ x : Observation,
      world.source world.clock asked pair = .ok (x : Sighting) → x.IsReadable) :
    (∀ saved, (poller.tick.run world).1.1 = .ok saved →
      ∃ found told, found.length = saved ∧
        poller.TicksTo world found told (poller.tick.run world).2) ∧
    ∀ found told after, poller.TicksTo world found told after →
      found.length = poller.pairs.length →
      world.Gives poller.pairs found ∧
      (∀ z, poller.Lasts world found told z →
        ∃ y, y.pairId = z.pairId ∧ z.seconds ≤ y.seconds ∧
          after.store.Reads .committed (Store.newest .committed z.pairId) (.ok y)) ∧
      ∀ service : Service,
        (∀ pair ∈ service.aggregated, ∃ z, z.pairId = pair.id ∧ poller.Lasts world found told z) →
        let given := (after.perform service.newestOfAll).1
        (∃ list, given = .ok list ∧ ∀ pair ∈ service.aggregated, ∃ y ∈ list, y.pairId = pair.id) ∨
          ∃ fault, given = .error (.store fault) ∧ fault.isOutage = true := by
  refine ⟨fun saved h => ticksTo_tick h, fun found told after h hlength => ?_⟩
  obtain ⟨hgives, hlasting⟩ := h.readNewest hlength hreached.isSound hreadable
  refine ⟨hgives, fun z hz => ?_, fun service hservice => ?_⟩
  · obtain ⟨y, hle, hread⟩ := hlasting z hz
    have hview : after.store.CanRead .committed := trivial
    have hreads := Store.reads_newest hview z.pairId
    rw [show after.store.table .committed = after.store.committed from rfl, hread] at hreads
    exact ⟨y, Table.pairId_of_readNewest hread, hle, hreads⟩
  · have hall : ∀ pair ∈ service.aggregated,
        ∃ y, after.store.committed.readNewest pair.id = .ok y := by
      intro pair hpair
      obtain ⟨z, hsame, hz⟩ := hservice pair hpair
      obtain ⟨y, -, hread⟩ := hlasting z hz
      exact ⟨y, hsame ▸ hread⟩
    refine (service.perform_newestOfAll hall).imp_left fun ⟨list, hgiven, hlist⟩ => ?_
    refine ⟨list, hgiven, fun pair hpair => ?_⟩
    obtain ⟨y, hy, hread⟩ := hlist pair hpair
    exact ⟨y, hy, Table.pairId_of_readNewest hread⟩

/-! ## Full ticks with and without their pairs -/

/-- A world with a new store and with a source that gives some answer for each pair. -/
def answering (clock : Time.DateTime) (answer : Pair → Except Failure Sighting) : World :=
  ⟨.fresh, fun _ _ pair => answer pair, [], clock⟩

/-- The rate of a pair of currencies that are worth the same, at a second. -/
def parityAt (second : Nat) (h : second ≤ Time.maxSecond) (pair : Pair) :
    Except Failure Sighting :=
  match Observation.make pair.base pair.quote ⟨4607182418800017408⟩ second (Int.ofNat_le.2 h) with
  | .ok x => .ok x
  | .error _ => .error (.refused "simulated")

/-- A poller of the canonical pairs. -/
def canonical : Poller := { hourly with pairs := Pair.canonical, pairs_ne := by decide }

/-- A poller of a pair and of one whose identity key is a key of the first. -/
def colliding : Poller :=
  { hourly with
    pairs := [⟨"EUR", "USD"⟩, ⟨"EUR", "USD\x00\x00\x00\x00AAAA"⟩]
    pairs_ne := by decide }

theorem eq_ok_of_toOption {result : Except ε α} {a : α} (h : result.toOption = some a) :
    result = .ok a := by
  cases result with
  | error fault => cases h
  | ok b => exact congrArg Except.ok (Option.some.inj h)

theorem codes_of_parityAt {second : Nat} (h : second ≤ Time.maxSecond) {pair : Pair}
    {x : Observation} (hx : parityAt second h pair = .ok (x : Sighting)) :
    x.base = pair.base ∧ x.quote = pair.quote ∧ x.seconds = second := by
  unfold parityAt at hx
  split at hx
  · rename_i y hy
    obtain rfl := Sighting.ofObservation_inj (Except.ok.inj hx)
    obtain ⟨hbase, hquote, -, hsecond⟩ := Observation.make_eq_ok_iff.1 hy
    exact ⟨hbase, hquote, Int.ofNat.inj hsecond⟩
  · cases hx

/-- The canonical pairs are all given out together after a full tick with answers of one o'clock,
although pruning was due. -/
theorem full_tick_of_canonical :
    let world := answering sessionless.clock (parityAt 1717246800 (by decide))
    let out := canonical.tick.run world
    out.1.1 = .ok canonical.pairs.length ∧
      ∃ list, (out.2.perform (Service.newestOfAll ⟨Pair.canonical, ⟨0⟩⟩)).1 = .ok list ∧
        ∀ pair ∈ Pair.canonical, ∃ y ∈ list, y.pairId = pair.id := by
  intro world
  dsimp only
  have hcount : (canonical.tick.run world).1.1 = .ok canonical.pairs.length :=
    eq_ok_of_toOption (by decide +kernel)
  have hgiven : ((canonical.tick.run world).2.perform
      (Service.newestOfAll ⟨Pair.canonical, ⟨0⟩⟩)).1.toOption.isSome = true := by decide +kernel
  have hreached : world.store.IsReached := .fresh Store.fresh.plan
  have hshort : ∀ pair ∈ Pair.canonical, (Bytes.ofText pair.base).length ≤ Record.maxLength ∧
      (Bytes.ofText pair.quote).length ≤ Record.maxLength := by decide
  have hreadable : ∀ asked, ∀ pair ∈ canonical.pairs, ∀ x : Observation,
      world.source world.clock asked pair = .ok (x : Sighting) → x.IsReadable := by
    intro asked pair hpair x hx
    obtain ⟨hbase, hquote, -⟩ := codes_of_parityAt (by decide) hx
    unfold Observation.IsReadable
    rw [hbase, hquote]
    exact hshort pair hpair
  have hplain : ∀ pair ∈ Pair.canonical, IsPlain pair.id := by decide
  have hcutoff : ∀ cutoff ∈ world.clock.minus? canonical.retention,
      cutoff.instant ≤ (1717246800 : Nat) * Time.microsPerSecond := by decide
  obtain ⟨hticks, hfull⟩ := full_tick_readable canonical world hreached hreadable
  generalize canonical.tick.run world = out at hcount hgiven hticks ⊢
  obtain ⟨found, told, hlength, hticked⟩ := hticks _ hcount
  obtain ⟨hfound, -, haggregated⟩ := hfull found told out.2 hticked hlength
  refine ⟨hcount, ?_⟩
  refine (haggregated ⟨Pair.canonical, ⟨0⟩⟩ fun pair hpair => ?_).resolve_right ?_
  · obtain ⟨x, hx, asked, hanswer⟩ := hfound.exists_of_mem hpair
    obtain ⟨hbase, hquote, hsecond⟩ := codes_of_parityAt (by decide) hanswer
    have hsame : x.pairId = pair.id := congrArg₂ Pair.idOf hbase hquote
    refine ⟨x, hsame, ?_, .inl hx, fun _ cutoff hmem => ?_⟩
    · rw [hsame]
      exact Key.isReserved_of_isPlain (hplain pair hpair)
    · have hlate := hcutoff cutoff hmem
      rw [← hsecond] at hlate
      exact decide_eq_false (Int.not_lt.2 hlate)
  · rintro ⟨fault, hfault, -⟩
    rw [hfault] at hgiven
    cases hgiven

/-- A full tick need not leave its pairs readable: the answer can carry other codes, the pruning at
its end can remove what it has just saved, and the row of a pair can be taken by another one. -/
theorem full_tick_unreadable :
    (let out := hourly.tick.run (answering hourly.lastPruned fun _ => .ok Store.longer)
     out.1.1 = .ok hourly.pairs.length ∧
      (out.2.store.perform (Store.newest .committed "EUR2USD")).1 =
        .error (.notFound "EUR2USD")) ∧
    (let out := canonical.tick.run (answering sessionless.clock (parityAt 2 (by decide)))
     out.1.1 = .ok canonical.pairs.length ∧
      (out.2.perform (Service.newestOfAll ⟨Pair.canonical, ⟨0⟩⟩)).1 =
        .error (.store (.notFound "EUR2USD"))) ∧
    let out := colliding.tick.run (answering hourly.lastPruned fun pair =>
      .ok (if pair.quote = "USD" then Store.lettered else Store.foreign : Observation))
    out.1.1 = .ok colliding.pairs.length ∧
      (out.2.store.perform (Store.newest .committed Store.foreign.pairId)).1 =
        .error (.foreignIdentity Store.foreign.pairId "EUR2USD") := by
  refine ⟨⟨eq_ok_of_toOption (by decide +kernel), by decide +kernel⟩,
    ⟨eq_ok_of_toOption (by decide +kernel), ?_⟩,
    eq_ok_of_toOption (by decide +kernel), by decide +kernel⟩
  generalize hafter : (canonical.tick.run _).2 = after
  have hget : (after.store.perform (Store.newest .committed "EUR2USD")).1 =
      .error (.notFound "EUR2USD") := by
    rw [← hafter]
    decide +kernel
  have hfirst : (after.perform (Service.newest "EUR2USD")).1 =
      .error (.store (.notFound "EUR2USD")) := congrArg (Except.mapError Failure.store) hget
  have hlist : (after.perform (Pair.canonical.mapM fun pair => Service.newest pair.id)).1 =
      .error (.store (.notFound "EUR2USD")) := World.perform_bind_of_error hfirst _
  have hgiven := congrArg Prod.fst (World.perform_map after latestFirst
    (Pair.canonical.mapM fun pair => Service.newest pair.id))
  rw [hlist] at hgiven
  exact hgiven

end Poller

end RateLedger
