import RateLedger.Http.Api
import RateLedger.Proofs.Actions
import RateLedger.Proofs.Ledgers
import RateLedger.Proofs.OwnBatches
import RateLedger.Proofs.Rankings

/-!
# What requests change

A request to the HTTP interface reads, or it fetches a rate and keeps it, or it prunes; only the
last two open a batch. So whatever the vendor says and whatever reads, writes, commits and rollbacks
fail, the answer tells what became of the stored observations: a rate that is given out was
inserted, a number of observations that is given out were removed, and in every other case, the
failures that are not handled included, the committed rows are as they were (`requests_tell`). No
request keeps the lock.
-/

namespace RateLedger

namespace Store

/-- The store with an engine that works again. -/
def mended (s : Store) : Store := { s with plan := fun _ _ => none }

/-- The stored observations, as a full scan gives them once the engine works. -/
def Stores (s : Store) (list : List Observation) : Prop :=
  (s.mended.perform (Cursor.all .committed).toList).1 = .ok list

theorem stores_of_holds {s : Store} {h : History} {list : List Observation}
    (hholds : s.committed.Holds h) (hlists : h.Lists list) : s.Stores list := by
  have hview : s.mended.CanRead .committed := trivial
  have hseen : (s.mended.table .committed).Holds h := hholds
  obtain ⟨shown, hreads, hshown⟩ := reads_all hview hseen
  obtain ⟨events, hperform⟩ := hreads.perform fun _ _ => rfl
  obtain rfl := hshown.unique hlists
  exact congrArg Prod.fst hperform

end Store

/-! ## Actions that only look -/

/-- An action leaves the committed rows and the lock. -/
abbrev Action.Looks (action : Action α) : Prop :=
  ∀ s : Store, action.Keeps fun world => s.SameOutside world.store

theorem Action.looks_onStore {step : StoreM α}
    (h : ∀ s : Store, Store.Keeps s.SameOutside (fun _ => True) step) : (onStore step).Looks :=
  fun s => Keeps.onStore fun world hworld => (h s world.store hworld).1

namespace Service

theorem looks_newest (pairId : String) : (newest pairId).Looks :=
  Action.looks_onStore fun s =>
    ((Store.unmoved_outside s fun _ _ => trivial).untouched .committed).newest pairId

theorem looks_recent (text : String) (limit : Int) : (recent text limit).Looks := by
  intro s
  rw [recent_eq]
  by_cases hlimit : limit < 0
  · rw [if_pos hlimit]
    exact .throw _
  · rw [if_neg hlimit]
    have hview : (Cursor.ofQuery .committed text).view = .committed := by
      unfold Cursor.ofQuery
      split <;> rfl
    refine .bind (Action.looks_onStore (fun t => ?_) s) fun _ => .pure _
    exact ((Store.unmoved_outside t fun _ _ => trivial).untouched .committed).toList hview

theorem looks_newestOfAll (service : Service) : service.newestOfAll.Looks :=
  fun s => .map (.mapM fun pair _ => looks_newest pair.id s) _

/-! ## Actions with a batch -/

/-- Fetching keeps the rate that it gives out, which is an observation then, or nothing. -/
theorem perform_fetch_cases {world : World} (hfree : world.store.locked = false)
    (hclose : ∀ n, world.store.plan n .closeSession = none) (service : Service) (pair : Pair) :
    let out := world.perform (service.fetch pair)
    out.2.store.locked = false ∧
      ((∃ x : Observation, out.1 = .ok (x : Sighting) ∧
          world.source world.clock world.asked pair = .ok (x : Sighting) ∧
          out.2.store.committed = world.store.committed.withSaved x) ∨
        (∃ failure, out.1 = .error failure) ∧
          out.2.store.committed = world.store.committed) := by
  unfold fetch
  rw [World.perform_bind, World.perform_ask]
  cases hanswer : world.source world.clock world.asked pair with
  | error failure => exact ⟨hfree, .inr ⟨⟨failure, rfl⟩, rfl⟩⟩
  | ok y =>
    dsimp only
    rw [World.perform_bind, World.perform_onStore]
    obtain ⟨hunlocked, -⟩ := Store.free_keep hfree y service.wait
    rcases Store.kept_or_dropped_keep hfree hclose y service.wait with
      ⟨x, rfl, hok, hrows⟩ | ⟨⟨fault, hfault⟩, hrows⟩
    · dsimp only
      rw [hok]
      exact ⟨hunlocked, .inl ⟨x, rfl, rfl, hrows⟩⟩
    · dsimp only
      rw [hfault]
      exact ⟨hunlocked, .inr ⟨⟨.store fault, rfl⟩, hrows⟩⟩

/-- An observation is older than some minutes at a time. -/
def isStale (now : Time.DateTime) (minutes : Int) (x : Observation) : Bool :=
  x.seconds * Time.microsPerSecond < now.instant - minutes * microsPerMinute

theorem isOlder_eq_isStale {now cutoff : Time.DateTime} {minutes : Int}
    (h : now.minus? (minutes * microsPerMinute) = some cutoff) :
    Observation.isOlder cutoff = isStale now minutes := by
  obtain ⟨hwall, hoffset⟩ := Time.DateTime.ofWall?_eq_some_iff.1 h
  have hinstant : cutoff.instant = now.instant - minutes * microsPerMinute := by
    unfold Time.DateTime.instant
    rw [hwall, hoffset]
    omega
  funext x
  unfold Observation.isOlder isStale
  rw [hinstant]

theorem microsPerMinute_pos : 0 < microsPerMinute := by decide

/-- A window that no span of time has reaches back before the first year. -/
theorem wall_lt_of_span?_eq_none {minutes : Int} (hminutes : 0 ≤ minutes) (now : Time.DateTime)
    (h : Time.span? (minutes * microsPerMinute) = none) :
    now.wall - minutes * microsPerMinute < Time.minWall := by
  have hnonneg : 0 ≤ minutes * microsPerMinute :=
    Int.mul_nonneg hminutes (Int.le_of_lt microsPerMinute_pos)
  have hupper := now.upper
  have hspans : Time.maxWall - Time.maxSpan < Time.minWall ∧ Time.minSpan < 0 := by decide
  unfold Time.span? at h
  split at h
  · cases h
  · omega

/-- Only before the first year there is no cutoff. -/
theorem minus?_eq_none_iff {minutes : Int} (hminutes : 0 ≤ minutes) (now : Time.DateTime) :
    now.minus? (minutes * microsPerMinute) = none ↔
      now.wall - minutes * microsPerMinute < Time.minWall := by
  have hnonneg : 0 ≤ minutes * microsPerMinute :=
    Int.mul_nonneg hminutes (Int.le_of_lt microsPerMinute_pos)
  have hupper := now.upper
  unfold Time.DateTime.minus?
  rw [Time.DateTime.ofWall?_eq_none_iff]
  omega

/-- Pruning is refused for minutes below zero and fails where the window reaches back before the
first year; else it prunes the store up to a cutoff. -/
theorem perform_prune (world : World) (service : Service) (minutes : Int) :
    minutes < 0 ∧ world.perform (service.prune minutes) =
        (.error (.refused "minutes must be >= 0"), world) ∨
    (0 ≤ minutes ∧ world.clock.wall - minutes * microsPerMinute < Time.minWall) ∧
      world.perform (service.prune minutes) = (.error .outOfRange, world) ∨
    0 ≤ minutes ∧ ∃ cutoff, world.clock.minus? (minutes * microsPerMinute) = some cutoff ∧
      ∃ text : Nat → String, world.perform (service.prune minutes) = world.perform (do
        let count ← Action.onStore (Store.prune cutoff service.wait)
        Action.note .info "services.oracle_service" (text count)
        return count) := by
  unfold prune
  by_cases hminutes : minutes < 0
  · rw [if_pos hminutes]
    exact .inl ⟨hminutes, rfl⟩
  have hnonneg : 0 ≤ minutes := Int.not_lt.1 hminutes
  rw [if_neg hminutes]
  refine .inr ?_
  cases hspan : Time.span? (minutes * microsPerMinute) with
  | none => exact .inl ⟨⟨hnonneg, wall_lt_of_span?_eq_none hnonneg world.clock hspan⟩, rfl⟩
  | some age =>
    obtain rfl : minutes * microsPerMinute = age := by
      unfold Time.span? at hspan
      split at hspan
      · exact Option.some.inj hspan
      · cases hspan
    show _ ∧ world.perform (Action.orOutOfRange (world.clock.minus? _) >>= _) = _ ∨
      _ ∧ ∃ cutoff, _ ∧ ∃ text : Nat → String,
        world.perform (Action.orOutOfRange (world.clock.minus? _) >>= _) = _
    cases hcutoff : world.clock.minus? (minutes * microsPerMinute) with
    | none => exact .inl ⟨⟨hnonneg, (minus?_eq_none_iff hnonneg world.clock).1 hcutoff⟩, rfl⟩
    | some cutoff =>
      exact .inr ⟨hnonneg, cutoff, rfl, fun count => "On-demand compaction older than " ++
        Number.Decimal.ofInt minutes ++ " minutes cleaned " ++ Number.Decimal.ofNat count ++
        " items", rfl⟩

/-- Pruning removes as many observations as it gives out, or none. -/
theorem perform_prune_cases {world : World} {h : History} {list : List Observation}
    (hholds : world.store.committed.Holds h) (hlists : h.Lists list)
    (hfree : world.store.locked = false)
    (hclose : ∀ n, world.store.plan n .closeSession = none) (service : Service) (minutes : Int) :
    let stale := list.filter (isStale world.clock minutes)
    let out := world.perform (service.prune minutes)
    out.2.store.locked = false ∧
      (out.1 = .ok stale.length ∧ out.2.store.committed.Holds (h.cleared stale) ∨
        (∃ failure, out.1 = .error failure) ∧
          out.2.store.committed = world.store.committed) := by
  intro stale out
  rcases perform_prune world service minutes with
    ⟨-, hrefused⟩ | ⟨-, hrefused⟩ | ⟨-, cutoff, hcutoff, text, hrun⟩
  · rw [show out = _ from hrefused]
    exact ⟨hfree, .inr ⟨⟨_, rfl⟩, rfl⟩⟩
  · rw [show out = _ from hrefused]
    exact ⟨hfree, .inr ⟨⟨_, rfl⟩, rfl⟩⟩
  · have hstale : list.filter (·.isOlder cutoff) = stale :=
      congrArg (list.filter ·) (isOlder_eq_isStale hcutoff)
    obtain ⟨hunlocked, -⟩ := Store.free_prune hfree cutoff service.wait
    have hcases := Store.kept_or_dropped_prune hholds hfree hclose hlists cutoff service.wait
    dsimp only at hcases
    rw [hstale] at hcases
    have hout : out = world.perform (_ >>= _) := hrun
    rw [hout, World.perform_bind, World.perform_onStore]
    rcases hcases with ⟨hok, hrows⟩ | ⟨⟨fault, hfault⟩, hrows⟩
    · rw [hok]
      exact ⟨hunlocked, .inl ⟨rfl, hrows⟩⟩
    · rw [hfault]
      exact ⟨hunlocked, .inr ⟨⟨.store fault, rfl⟩, hrows⟩⟩

end Service

/-! ## Requests -/

namespace Http

/-- The route that a request is for. -/
def Request.wanted? (request : Request) : Option Route := (Route.find? request.route).map (·.1)

/-- What was answered to a request in a world, where some observations were stored, is what became
of them. -/
structure Tells (request : Request) (world : World) (stored : List Observation)
    (response : Response) (after : World) : Prop where
  free : after.store.locked = false
  exchanged : response.status = 200 → request.wanted? = some .exchange →
    ∃ (x : Observation) (list : List Observation), response.body = x.document ∧
      (∃ pair, world.source world.clock world.asked pair = .ok (x : Sighting)) ∧
      after.store.Stores list ∧
      ∀ y, y ∈ list ↔ y = x ∨ y ∈ stored ∧ ¬(y.pairId = x.pairId ∧ y.seconds = x.seconds)
  compacted : response.status = 200 → request.wanted? = some .compact →
    ∃ minutes, request.count "minutes" 60 none = .ok minutes ∧
      let stale := Service.isStale world.clock minutes
      response.body = .obj [("cleaned", .int (stored.filter stale).length)] ∧
      after.store.Stores (stored.filter fun x => !stale x)
  unchanged : ¬(response.status = 200 ∧ request.wanted? ∈ [some .exchange, some .compact]) →
    after.store.committed = world.store.committed

/-- An answer that tells of no change goes with unchanged rows. -/
theorem tells_unchanged {request : Request} {world after : World} {stored : List Observation}
    {response : Response} (hfree : after.store.locked = false)
    (hsame : after.store.committed = world.store.committed)
    (hsilent : response.status = 200 → request.wanted? ∉ [some .exchange, some .compact]) :
    Tells request world stored response after where
  free := hfree
  exchanged hok hroute := absurd (by rw [hroute]; simp) (hsilent hok)
  compacted hok hroute := absurd (by rw [hroute]; simp) (hsilent hok)
  unchanged _ := hsame

namespace Api

/-- A failure is not answered with success, and goes into the journal at most. -/
theorem run_answerFailure (path : String) (failure : Failure) (world : World) :
    let out := (answerFailure path failure).run world
    out.1.status ≠ 200 ∧ ∃ journal, out.2.store = { world.store with journal } := by
  cases failure with
  | store fault =>
    cases fault with
    | notFound pairId => exact ⟨show 404 ≠ 200 by decide, _, rfl⟩
    | unencodable flaw => exact ⟨show 400 ≠ 200 by decide, _, rfl⟩
    | _ => exact ⟨show 500 ≠ 200 by decide, _, rfl⟩
  | vendor error => exact ⟨show 502 ≠ 200 by decide, _, rfl⟩
  | invalid problems => exact ⟨show 400 ≠ 200 by decide, _, rfl⟩
  | refused reason => exact ⟨show 400 ≠ 200 by decide, _, rfl⟩
  | outOfRange => exact ⟨show 500 ≠ 200 by decide, _, rfl⟩
  | tooDeep => exact ⟨show 500 ≠ 200 by decide, _, rfl⟩
  | zoneUnreadable => exact ⟨show 500 ≠ 200 by decide, _, rfl⟩
  | alreadyRunning reason => exact ⟨show 500 ≠ 200 by decide, _, rfl⟩

theorem run_answer_eq (path : String) (action : Action Json) (world : World) :
    (answer path action).run world = (match (world.perform action).1 with
      | .ok body => pure ⟨200, body⟩
      | .error failure => answerFailure path failure : StateM World Response).run
        (world.perform action).2 :=
  world.run_bind action _

/-- Answering an action does to the rows and the lock what the action does, and tells of success
exactly with what the action gives. -/
theorem run_answer (path : String) (action : Action Json) (world : World) :
    let out := (answer path action).run world
    let done := world.perform action
    (∃ journal, out.2.store = { done.2.store with journal }) ∧
      (∀ body, done.1 = .ok body → out.1 = ⟨200, body⟩) ∧
      ∀ failure, done.1 = .error failure → out.1.status ≠ 200 := by
  dsimp only
  rw [run_answer_eq]
  rcases world.perform action with ⟨failure | body, after⟩
  · obtain ⟨hstatus, hjournal⟩ := run_answerFailure path failure after
    exact ⟨hjournal, nofun, fun _ _ => hstatus⟩
  · exact ⟨⟨_, rfl⟩, fun _ h => by cases h; rfl, nofun⟩

variable {request : Request} {world : World} {stored : List Observation}

/-- An action that only looks may be answered in any way, unless it is for a route that changes
something. -/
theorem tells_looks {action : Action Json} (hlooks : action.Looks)
    (hfree : world.store.locked = false) (path : String)
    (hroute : request.wanted? ∉ [some .exchange, some .compact]) :
    let out := (answer path action).run world
    Tells request world stored out.1 out.2 := by
  intro out
  obtain ⟨⟨journal, hafter⟩, -⟩ := run_answer path action world
  have hsame := hlooks world.store world (.refl _)
  refine tells_unchanged ?_ ?_ fun _ => hroute
  · exact (congrArg Store.locked hafter).trans (hsame.locked.trans hfree)
  · exact (congrArg Store.committed hafter).trans hsame.committed

/-- A rate that is given out was inserted. -/
theorem tells_exchange {h : History} (hholds : world.store.committed.Holds h)
    (hlists : h.Lists stored) (hfree : world.store.locked = false)
    (hclose : ∀ n, world.store.plan n .closeSession = none)
    (hsource : ∀ pair (x : Observation),
      world.source world.clock world.asked pair = .ok (x : Sighting) → x.IsOrdinary)
    (hroute : request.wanted? = some .exchange) (path : String) (service : Service) (pair : Pair) :
    let out := (answer path (Sighting.document <$> service.fetch pair)).run world
    Tells request world stored out.1 out.2 := by
  intro out
  obtain ⟨⟨journal, hafter⟩, hok, hfailed⟩ :=
    run_answer path (Sighting.document <$> service.fetch pair) world
  rw [World.perform_map] at hafter hok hfailed
  obtain ⟨hunlocked, hcases⟩ := Service.perform_fetch_cases hfree hclose service pair
  have hlocked : out.2.store.locked = false := (congrArg Store.locked hafter).trans hunlocked
  rcases hcases with ⟨x, hgiven, hanswer, hrows⟩ | ⟨⟨failure, hfailure⟩, hrows⟩
  · have hx := hsource pair x hanswer
    have hcommitted : out.2.store.committed.Holds (h.saved x) := by
      rw [show out.2.store.committed = _ from congrArg Store.committed hafter]
      show (world.perform (service.fetch pair)).2.store.committed.Holds _
      rw [hrows, hholds.isSound.withSaved hx.readable]
      exact hholds.saved hx
    have hbody : out.1 = ⟨200, x.document⟩ := hok _ (by rw [hgiven]; rfl)
    have hlist := hcommitted.lists
    refine ⟨hlocked, fun _ _ => ⟨x, _, by rw [hbody], ⟨pair, hanswer⟩,
      Store.stores_of_holds hcommitted hlist, fun y => ?_⟩, fun _ hother => ?_, fun hnot => ?_⟩
    · rw [hlist.mem, History.has_saved, hlists.mem]
    · rw [hroute] at hother
      cases hother
    · exact absurd ⟨by rw [hbody], by rw [hroute]; simp⟩ hnot
  · refine tells_unchanged hlocked ((congrArg Store.committed hafter).trans hrows) fun hstatus => ?_
    exact absurd hstatus (hfailed failure (by rw [hfailure]; rfl))

/-- A number of observations that is given out were removed. -/
theorem tells_compact {h : History} (hholds : world.store.committed.Holds h)
    (hlists : h.Lists stored) (hfree : world.store.locked = false)
    (hclose : ∀ n, world.store.plan n .closeSession = none)
    (hroute : request.wanted? = some .compact) {minutes : Int}
    (hminutes : request.count "minutes" 60 none = .ok minutes) (path : String)
    (service : Service) :
    let out := (answer path ((fun count : Nat => .obj [("cleaned", .int count)]) <$>
      service.prune minutes)).run world
    Tells request world stored out.1 out.2 := by
  intro out
  obtain ⟨⟨journal, hafter⟩, hok, hfailed⟩ :=
    run_answer path ((fun count : Nat => .obj [("cleaned", .int count)]) <$>
      service.prune minutes) world
  rw [World.perform_map] at hafter hok hfailed
  obtain ⟨hunlocked, hcases⟩ :=
    Service.perform_prune_cases hholds hlists hfree hclose service minutes
  have hlocked : out.2.store.locked = false := (congrArg Store.locked hafter).trans hunlocked
  rcases hcases with ⟨hgiven, hrows⟩ | ⟨⟨failure, hfailure⟩, hrows⟩
  · have hbody : out.1 = ⟨200, .obj [("cleaned",
        .int (stored.filter (Service.isStale world.clock minutes)).length)]⟩ :=
      hok _ (by rw [hgiven]; rfl)
    have hcommitted : out.2.store.committed.Holds
        (h.cleared (stored.filter (Service.isStale world.clock minutes))) := by
      rw [show out.2.store.committed = _ from congrArg Store.committed hafter]
      exact hrows
    refine ⟨hlocked, fun _ hother => ?_, fun _ _ => ⟨minutes, hminutes, by rw [hbody],
      Store.stores_of_holds hcommitted (hlists.cleared _)⟩, fun hnot => ?_⟩
    · rw [hroute] at hother
      cases hother
    · exact absurd ⟨by rw [hbody], by rw [hroute]; simp⟩ hnot
  · refine tells_unchanged hlocked ((congrArg Store.committed hafter).trans hrows) fun hstatus => ?_
    exact absurd hstatus (hfailed failure (by rw [hfailure]; rfl))

/-- Before the response is shortened for the head of it, it tells what it should. -/
theorem tells_respond {h : History} (hholds : world.store.committed.Holds h)
    (hlists : h.Lists stored) (hfree : world.store.locked = false)
    (hclose : ∀ n, world.store.plan n .closeSession = none)
    (hsource : ∀ pair (x : Observation),
      world.source world.clock world.asked pair = .ok (x : Sighting) → x.IsOrdinary)
    (api : Api) (request : Request) :
    let out := (api.respond request).run world
    Tells request world stored out.1 out.2 := by
  have hrefused : ∀ response : Response, response.status ≠ 200 →
      Tells request world stored response world :=
    fun response hstatus => tells_unchanged hfree rfl fun hok => absurd hok hstatus
  intro out
  unfold out respond
  cases hfind : Route.find? request.route with
  | none => exact hrefused _ (show 404 ≠ 200 by decide)
  | some found =>
    obtain ⟨route, path⟩ := found
    have hwanted : request.wanted? = some route := by
      unfold Request.wanted?
      rw [hfind]
      rfl
    dsimp only
    by_cases hmethod : route.method ≠ request.method
    · rw [if_pos hmethod]
      exact hrefused _ (show 405 ≠ 200 by decide)
    · rw [if_neg hmethod]
      have hlooks : ∀ action : Action Json, action.Looks → route ≠ .exchange → route ≠ .compact →
          Tells request world stored ((answer path action).run world).1
            ((answer path action).run world).2 := by
        intro action haction hne hne'
        refine tells_looks haction hfree path ?_
        rw [hwanted]
        simp [hne, hne']
      cases route with
      | version => exact hlooks _ (fun _ => .pure _) nofun nofun
      | exchange => exact tells_exchange hholds hlists hfree hclose hsource hwanted path _ _
      | rates pairId => exact hlooks _ (fun s => (Service.looks_newest pairId s).map _) nofun nofun
      | aggregated => exact hlooks _ (fun s => (Service.looks_newestOfAll _ s).map _) nofun nofun
      | recent =>
        dsimp only [action]
        cases request.count "items" 10 (some maxItems) with
        | error problem => exact hrefused _ (show 422 ≠ 200 by decide)
        | ok limit => exact hlooks _ (fun s => (Service.looks_recent _ limit s).map _) nofun nofun
      | compact =>
        dsimp only [action]
        cases hminutes : request.count "minutes" 60 none with
        | error problem => exact hrefused _ (show 422 ≠ 200 by decide)
        | ok minutes =>
          exact tells_compact hholds hlists hfree hclose hwanted hminutes path _

/-- No route answers a request for the head of a response with success. -/
theorem status_respond_head (api : Api) {request : Request} (hhead : request.method = "HEAD")
    (world : World) : ((api.respond request).run world).1.status ≠ 200 := by
  unfold respond
  cases Route.find? request.route with
  | none => exact show 404 ≠ 200 by decide
  | some found =>
    obtain ⟨route, path⟩ := found
    have hmethod : route.method ≠ request.method := by
      rw [hhead]
      cases route with
      | compact => exact show "POST" ≠ "HEAD" by decide
      | _ => exact show "GET" ≠ "HEAD" by decide
    dsimp only
    rw [if_pos hmethod]
    exact show 405 ≠ 200 by decide

end Api

/-- After any ordinary calls that left no batch open, and for an engine whose sessions close:
whatever a request asks for, whatever the source answers, as long as the codes of what it gives are
ordinary, and whatever calls of the engine fail, the lock is free afterwards and the answer is what
became of the stored observations. Success with a rate says that it was inserted in its place;
success with a pruning says how many observations were removed, and these are the ones older than
the clock minus the minutes; and all other answers, those to failures that nothing handles included,
go with unchanged rows. -/
theorem requests_tell (calls : List Call) (hcalls : ∀ call ∈ calls, call.IsOrdinary)
    (hfree : (Store.fresh.after calls).locked = false) (plan : FaultPlan)
    (hclose : ∀ n, plan n .closeSession = none) (source : Source) (asked : List Pair)
    (clock : Time.DateTime)
    (hsource : ∀ pair (x : Observation),
      source clock asked pair = .ok (x : Sighting) → x.IsOrdinary)
    (api : Api) (request : Request) :
    let world : World := ⟨{ Store.fresh.after calls with plan }, source, asked, clock⟩
    let out := (api.handle request).run world
    ∃ stored, world.store.Stores stored ∧ Tells request world stored out.1 out.2 := by
  intro world out
  have h := Store.mirrors_after hcalls
  have hholds : world.store.committed.Holds (Ledger.fresh.after calls).committed := h.committed
  have hlists := hholds.lists
  refine ⟨_, Store.stores_of_holds hholds hlists, ?_⟩
  have htells := Api.tells_respond hholds hlists hfree hclose hsource api request
  have hout : out = (if request.method = "HEAD"
      then { ((api.respond request).run world).1 with body := .str "" }
      else ((api.respond request).run world).1, ((api.respond request).run world).2) := rfl
  by_cases hhead : request.method = "HEAD"
  · have hstatus := api.status_respond_head hhead world
    rw [hout, if_pos hhead]
    exact tells_unchanged htells.free (htells.unchanged fun hok => hstatus hok.1)
      fun hok => absurd hok hstatus
  · rw [hout, if_neg hhead]
    exact htells

/-- An engine whose commits fail. -/
def uncommitting : FaultPlan :=
  fun _ call => if call = .commit then some ⟨"simulated commit failure", false⟩ else none

/-- A rate that was fetched but could not be committed is not given out, and nothing changes. -/
theorem requests_tell_of_failed_commit :
    let world : World := ⟨{ Store.fresh.after Store.outOfOrder with plan := uncommitting },
      fun _ _ _ => .ok Store.late, [], Store.epoch⟩
    let api : Api := ⟨⟨[], ⟨0⟩⟩, "1.0"⟩
    let request : Request := ⟨"GET", "/v1/exchange/", [("from", "eur"), ("to", "usd")]⟩
    let out := (api.handle request).run world
    out.1.status = 500 ∧ out.2.asked = [⟨"EUR", "USD"⟩] ∧
      out.2.store.locked = false ∧ out.2.store.committed = world.store.committed := by
  intro world api request out
  have hlate : Store.late.IsOrdinary := ⟨by decide, by decide, by decide, by decide⟩
  have hsource : ∀ pair (x : Observation),
      world.source Store.epoch [] pair = .ok (x : Sighting) → x.IsOrdinary := by
    intro pair x hx
    obtain rfl := Sighting.ofObservation_inj (Except.ok.inj hx)
    exact hlate
  obtain ⟨stored, -, htells⟩ := requests_tell Store.outOfOrder Store.isOrdinary_outOfOrder
    (by decide +kernel) uncommitting (fun _ => rfl) world.source [] Store.epoch hsource api request
  have hstatus : out.1.status = 500 := by decide +kernel
  refine ⟨hstatus, by decide +kernel, htells.free, htells.unchanged fun hok => ?_⟩
  rw [hok.1] at hstatus
  exact absurd hstatus (by decide)

end Http

end RateLedger
