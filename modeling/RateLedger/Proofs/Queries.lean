import RateLedger.Proofs.Rounds

/-!
# Asking for one pair

A pair is asked for until an answer is no failure of the vendor, which settles the query, or until
the attempts are used up. Only an observation leads to a batch, and to one only. The query says
that the pair was saved if and only if the commit of that batch passed, and in every other case the
committed rows stay; the lock is as it was before in any case (`query_outcomes`).
-/

namespace RateLedger

/-! ## Trying to keep a sighting -/

namespace Store

/-- A batch can be opened now: the lock is free, and the engine opens a session. -/
def canOpen (s : Store) (wait : Binary64) : Bool :=
  !waitTooLong wait && !s.locked && (s.strike? .openSession).isNone

/-- It was tried to keep a sighting: `kept` tells whether the commit passed. -/
structure Tried (s t : Store) (y : Sighting) (wait : Binary64) (kept : Bool) : Prop where
  locked : t.locked = s.locked
  batches : t.batches.length = s.batches.length + (s.canOpen wait).toNat
  commits : commits t.trace = RateLedger.commits s.trace + kept.toNat
  committed : if kept then ∃ x : Observation, y = x ∧ t.committed = s.committed.withSaved x
    else t.committed = s.committed

/-- The fault that keeps a sighting from being kept: where a batch can be opened at all, it is one
of the store as such, or a code has no form in UTF-8. -/
def Explains (s : Store) (y : Sighting) (wait : Binary64) (fault : StoreFault) : Prop :=
  waitTooLong wait = false → s.strike? .openSession = none → IsSavingFault y fault

section

variable {s : Store} {y : Sighting} {wait : Binary64}

/-- The journal does not matter for what is tried. -/
theorem Tried.of_journal {t : Store} {kept : Bool} {journal : Journal}
    (h : Tried { s with journal } t y wait kept) : s.Tried t y wait kept :=
  ⟨h.locked, h.batches, h.commits, h.committed⟩

/-- Where no batch can be opened, none is, and nothing is kept. -/
theorem tried_refused (h : s.canOpen wait = false) (y : Sighting) :
    let out := s.perform (keep y wait)
    s.Tried out.2 y wait false ∧ ∃ fault, out.1 = .error fault ∧ s.Explains y wait fault := by
  have hsame : s.Tried s y wait false := ⟨rfl, by rw [h]; rfl, rfl, rfl⟩
  unfold Explains
  rw [keep_eq_ownBatch, perform_ownBatch, perform_openBatch]
  cases hwait : waitTooLong wait with
  | true => exact ⟨hsame, _, rfl, nofun⟩
  | false =>
    cases hlocked : s.locked with
    | true => exact ⟨hsame, _, rfl, fun _ _ => .inl rfl⟩
    | false =>
      cases hstrike : s.strike? .openSession with
      | none =>
        unfold canOpen at h
        rw [hwait, hlocked, hstrike] at h
        cases h
      | some cause =>
        refine ⟨⟨hlocked.symm, ?_, commits_cons (by simp) _, rfl⟩, _, rfl, nofun⟩
        rw [h]
        rfl

/-- Where a batch can be opened and its session closes, a sighting is kept as a whole, or it is
dropped for a fault of the store as such or for a code without a form in UTF-8. -/
theorem tried_opened (h : s.canOpen wait = true) (hclose : ∀ n, s.plan n .closeSession = none)
    (y : Sighting) :
    let out := s.perform (keep y wait)
    s.Tried out.2 y wait true ∧ out.1 = .ok ⟨⟩ ∨
      s.Tried out.2 y wait false ∧ ∃ fault, out.1 = .error fault ∧ IsSavingFault y fault := by
  intro out
  let work (b : Nat) : StoreM Unit := saveSighting b y
  have hout : out = s.perform (ownBatch wait work) := congrArg s.perform (keep_eq_ownBatch y wait)
  have hwork : ∀ t : Store, Keeps t.SameOutside (IsSavingFault y) (work s.batches.length) :=
    fun t => outside_saveSighting t s.batches.length y
  have hopen := h
  unfold canOpen at hopen
  simp only [Bool.and_eq_true, Bool.not_eq_true', Option.isNone_iff_eq_none] at hopen
  obtain ⟨⟨hwait, hfree⟩, hstrike⟩ := hopen
  rcases cases_withBatch hfree hwait hwork with
    ⟨cause, hcause, -⟩ | ⟨-, result, u, hworked, hfinishes⟩
  · rw [hstrike] at hcause
    cases hcause
  · rw [← hout] at hfinishes
    have hcount : u.batches.length = s.batches.length + (s.canOpen wait).toNat := by
      rw [hworked.outside.count, h]
      exact List.length_append
    have hcommits : commits u.trace = commits s.trace :=
      hworked.outside.commits.trans (commits_cons (by simp) _)
    have hclosed : ∀ {t : Store} {closing}, u.Ended t closing → closing = none := by
      intro t closing hended
      obtain ⟨n, hn⟩ := hended.planned
      rw [← hn, hworked.outside.plan]
      exact hclose n
    generalize out.1 = given at hfinishes ⊢
    cases hfinishes with
    | kept a closing worked ended committed commits =>
      obtain rfl := hclosed ended
      subst worked
      refine .inl ⟨⟨ended.free.trans hfree.symm, ended.count.trans hcount, ?_, ?_⟩, rfl⟩
      · rw [commits, hcommits]
        rfl
      · obtain ⟨x, hx, hview⟩ := hworked.viewOf_saveSighting
        exact ⟨x, hx, committed.trans hview⟩
    | dropped fault closing cause ended committed commits =>
      obtain rfl := hclosed ended
      refine .inr ⟨⟨ended.free.trans hfree.symm, ended.count.trans hcount, ?_, ?_⟩, fault, rfl,
        cause.elim (hworked.fault fault) .inl⟩
      · rw [commits, hcommits]
        rfl
      · exact committed.trans hworked.outside.committed

/-- Where sessions close, a sighting is kept as a whole or not at all. -/
theorem tried_keep (hclose : ∀ n, s.plan n .closeSession = none) (y : Sighting)
    (wait : Binary64) :
    let out := s.perform (keep y wait)
    s.Tried out.2 y wait true ∧ out.1 = .ok ⟨⟩ ∨
      s.Tried out.2 y wait false ∧ ∃ fault, out.1 = .error fault ∧ s.Explains y wait fault := by
  cases hopen : s.canOpen wait with
  | false => exact .inr (tried_refused hopen y)
  | true =>
    rcases tried_opened hopen hclose y with hkept | ⟨htried, fault, hfault, hsaving⟩
    · exact .inl hkept
    · exact .inr ⟨htried, fault, hfault, fun _ _ => hsaving⟩

end

end Store

/-! ## Asking again -/

/-- What the source says about a pair when it was asked for it some times in a row just before. -/
def World.answer (world : World) (pair : Pair) (before : Nat) : Except Failure Sighting :=
  world.source world.clock (List.replicate before pair ++ world.asked) pair

/-- Whether an answer is a failure of the vendor, after which a pair is asked for again. -/
def isVendorFailure : Except Failure Sighting → Bool
  | .error (.vendor _) => true
  | _ => false

/-- How many of some answers come before the first one that is no failure of the vendor. -/
def World.settled? (world : World) (pair : Pair) (attempts : Nat) : Option Nat :=
  (List.range attempts).find? fun before => !isVendorFailure (world.answer pair before)

namespace Poller

theorem replicate_append_cons (count : Nat) (pair : Pair) (asked : List Pair) :
    List.replicate count pair ++ pair :: asked = List.replicate (count + 1) pair ++ asked := by
  rw [List.replicate_succ', List.append_assoc]
  rfl

/-- The world in which the source was asked for a pair once more. -/
def askedOnce (world : World) (pair : Pair) : World := { world with asked := pair :: world.asked }

theorem answer_askedOnce (world : World) (pair : Pair) (before : Nat) :
    (askedOnce world pair).answer pair before = world.answer pair (before + 1) := by
  unfold World.answer
  rw [← replicate_append_cons]
  rfl

theorem settled?_succ (world : World) (pair : Pair) (attempts : Nat) :
    world.settled? pair (attempts + 1) =
      if isVendorFailure (world.answer pair 0) then
        ((askedOnce world pair).settled? pair attempts).map (· + 1)
      else some 0 := by
  unfold World.settled?
  rw [List.range_succ_eq_map, List.find?_cons, List.find?_map]
  simp only [answer_askedOnce]
  cases isVendorFailure (world.answer pair 0) <;> rfl

/-- A pair is asked for until its query is settled, or as often as it may be. -/
theorem perform_fetch_settled (pair : Pair) (attempts failed : Nat) (world : World) :
    let settled := world.settled? pair attempts
    let out := world.perform (fetch pair attempts failed)
    out.1 = (settled.elim (.ok none) fun before => (world.answer pair before).map some) ∧
      ∃ journal, out.2 = { world with
        store := { world.store with journal }
        asked := List.replicate (settled.elim attempts (· + 1)) pair ++ world.asked } := by
  induction attempts generalizing failed world with
  | zero => exact ⟨rfl, world.store.journal, rfl⟩
  | succ attempts ih =>
    intro settled out
    have hout : out = _ := perform_fetch_ask pair attempts failed world
    have hsettled : settled = _ := settled?_succ world pair attempts
    have hfirst : world.answer pair 0 = world.source world.clock world.asked pair := rfl
    rw [← hfirst] at hout
    cases hanswer : world.answer pair 0 with
    | ok y =>
      rw [hanswer] at hout hsettled
      rw [hout, show settled = some 0 from hsettled]
      refine ⟨?_, world.store.journal, rfl⟩
      rw [Option.elim_some, hanswer]
      rfl
    | error failure =>
      rw [hanswer] at hout hsettled
      cases failure with
      | vendor error =>
        dsimp only at hout
        rw [World.perform_bind, World.perform_note] at hout
        dsimp only at hout
        obtain ⟨hresult, journal, hafter⟩ := ih (failed + 1) _
        rw [← hout] at hresult hafter
        have hlater : settled = ((askedOnce world pair).settled? pair attempts).map (· + 1) :=
          hsettled
        change out.1 = ((askedOnce world pair).settled? pair attempts).elim (.ok none)
          fun before => ((askedOnce world pair).answer pair before).map some at hresult
        change out.2 = { world with
          store := { world.store with journal }
          asked := List.replicate (((askedOnce world pair).settled? pair attempts).elim attempts
            (· + 1)) pair ++ pair :: world.asked } at hafter
        rw [replicate_append_cons] at hafter
        rw [hlater]
        generalize (askedOnce world pair).settled? pair attempts = later at hresult hafter
        cases later with
        | none => exact ⟨hresult, journal, hafter⟩
        | some before =>
          rw [Option.elim_some, answer_askedOnce] at hresult
          exact ⟨hresult, journal, hafter⟩
      | _ =>
        rw [hout, show settled = some 0 from hsettled]
        refine ⟨?_, world.store.journal, rfl⟩
        rw [Option.elim_some, hanswer]
        rfl

/-- Keeping what was found says whether it was kept, unless the failure is none of the store as
such. -/
theorem perform_keep_cases (poller : Poller) (pair : Pair) (y : Sighting) (world : World) :
    let tried := world.store.perform (Store.keep y poller.wait)
    let out := world.perform (poller.keep pair y)
    (∃ journal, out.2 = { world with store := { tried.2 with journal } }) ∧
      out.1 = match tried.1 with
        | .ok _ => .ok true
        | .error fault => if fault.isBackend then .ok false else .error (.store fault) := by
  intro tried out
  have hout : out = world.perform (poller.keep pair y) := rfl
  unfold keep at hout
  rw [World.perform_bind, World.perform_attempt, World.perform_onStore] at hout
  dsimp only at hout
  rw [hout]
  generalize htried : world.store.perform (Store.keep y poller.wait) = found
  rw [show tried = found from htried]
  obtain ⟨result, store⟩ := found
  cases result with
  | ok done => exact ⟨⟨store.journal, rfl⟩, rfl⟩
  | error fault =>
    have hsame : (Failure.store fault).isBackend = fault.isBackend := rfl
    dsimp only [Except.mapError]
    rw [hsame]
    cases fault.isBackend with
    | true => exact ⟨⟨_, rfl⟩, rfl⟩
    | false => exact ⟨⟨store.journal, rfl⟩, rfl⟩

theorem lookup_entry_withSaved (table : Table) (x : Observation) :
    (table.withSaved x).lookup (Key.ofObservation x) = some x.toRecord := by
  show ((table.insert (Key.ofObservation x) x.toRecord).written
    ((table.insert (Key.ofObservation x) x.toRecord).draftNewest x).writes).lookup _ = _
  generalize hentered : table.insert (Key.ofObservation x) x.toRecord = entered
  have hentry : entered.lookup (Key.ofObservation x) = some x.toRecord := by
    rw [← hentered, Table.lookup_insert, if_pos rfl]
  rcases Table.writes_draftNewest entered x with hwrites | hwrites <;> rw [hwrites]
  · exact hentry
  · show (entered.insert _ _).lookup _ = _
    rw [Table.lookup_insert, hentry, ite_self]

/-- What a query comes to, by the answer that settled it. Without a sighting it says that nothing
was saved, or fails with the answer, and changes nothing but the journal. For a sighting it opens
one batch, if one can be opened at all, and unless a session fails, it says whether the sighting was
saved, or fails because a code has no form in UTF-8. -/
def Follows (wait : Binary64) (before after : Store) (result : Except Failure Bool) :
    Option (Except Failure Sighting) → Prop
  | none => result = .ok false ∧ ∃ journal, after = { before with journal }
  | some (.error failure) => result = .error failure ∧ ∃ journal, after = { before with journal }
  | some (.ok y) =>
    after.batches.length = before.batches.length + (before.canOpen wait).toNat ∧
      (result = .ok true → ∃ x : Observation, y = x ∧
        after.committed = before.committed.withSaved x ∧
        after.committed.lookup (Key.ofObservation x) = some x.toRecord) ∧
      (Store.waitTooLong wait = false → before.strike? .openSession = none →
        (∃ saved, result = .ok saved) ∨
          ∃ flaw, y.stored = .error flaw ∧ result = .error (.store (.unencodable flaw)))

/-- What holds after a query that came to `result`. -/
structure Queried (poller : Poller) (world : World) (pair : Pair) (attempts : Nat)
    (result : Except Failure Bool) (after : World) : Prop where
  asked : after.asked = List.replicate
    ((world.settled? pair attempts).elim attempts (· + 1)) pair ++ world.asked
  lock : after.store.locked = world.store.locked
  saved : result = .ok true ↔ commits after.store.trace = commits world.store.trace + 1
  unsaved : result ≠ .ok true → after.store.committed = world.store.committed
  follows : Follows poller.wait world.store after.store result
    ((world.settled? pair attempts).map (world.answer pair))

/-- Asking for a pair comes to the answer that settles the query, and leaves the store as it is but
for its journal. -/
theorem perform_ask_settled (poller : Poller) (pair : Pair) (world : World) :
    let settled := world.settled? pair poller.attempts
    let out := world.perform (poller.ask pair)
    out.1 = (settled.elim (.ok none) fun before => (world.answer pair before).map some) ∧
      ∃ journal, out.2 = { world with
        store := { world.store with journal }
        asked := List.replicate (settled.elim poller.attempts (· + 1)) pair ++ world.asked } := by
  unfold ask
  rw [World.perform_bind, World.perform_note]
  exact perform_fetch_settled pair poller.attempts 0 _

section

variable {poller : Poller} {world after : World} {pair : Pair} {attempts : Nat}
  {result : Except Failure Bool}

/-- A query that changed nothing but the journal. -/
theorem queried_of_journal (hresult : result ≠ .ok true)
    (hstore : ∃ journal, after.store = { world.store with journal })
    (hasked : after.asked = List.replicate
      ((world.settled? pair attempts).elim attempts (· + 1)) pair ++ world.asked)
    (hfollows : Follows poller.wait world.store after.store result
      ((world.settled? pair attempts).map (world.answer pair))) :
    poller.Queried world pair attempts result after := by
  obtain ⟨journal, hstore⟩ := hstore
  refine ⟨hasked, ?_, ⟨fun h => absurd h hresult, fun h => ?_⟩, fun _ => ?_, hfollows⟩
  · rw [hstore]
  · rw [hstore] at h
    exact absurd h (Nat.ne_of_lt (Nat.lt_succ_self _))
  · rw [hstore]

/-- A query that found a sighting and tried to keep it. -/
theorem queried_of_tried {y : Sighting} {tried : Except StoreFault Unit × Store}
    (htried : world.store.Tried tried.2 y poller.wait true ∧ tried.1 = .ok ⟨⟩ ∨
      world.store.Tried tried.2 y poller.wait false ∧ ∃ fault, tried.1 = .error fault ∧
        world.store.Explains y poller.wait fault)
    (hresult : result = match tried.1 with
      | .ok _ => .ok true
      | .error fault => if fault.isBackend then .ok false else .error (.store fault))
    (hstore : ∃ journal, after.store = { tried.2 with journal })
    (hasked : after.asked = List.replicate
      ((world.settled? pair attempts).elim attempts (· + 1)) pair ++ world.asked)
    (hsettled : (world.settled? pair attempts).map (world.answer pair) = some (.ok y)) :
    poller.Queried world pair attempts result after := by
  obtain ⟨journal, hstore⟩ := hstore
  obtain ⟨given, store⟩ := tried
  dsimp only at htried hresult hstore
  rcases htried with ⟨htried, rfl⟩ | ⟨htried, fault, rfl, htells⟩
  · subst hresult
    refine ⟨hasked, ?_, ⟨fun _ => ?_, fun _ => rfl⟩, fun h => absurd rfl h, ?_⟩
    · rw [hstore]
      exact htried.locked
    · rw [hstore]
      exact htried.commits
    · obtain ⟨x, hx, hrows⟩ : ∃ x : Observation, y = x ∧
        store.committed = world.store.committed.withSaved x := htried.committed
      rw [hstore, hsettled]
      refine ⟨htried.batches, fun _ => ⟨x, hx, hrows, ?_⟩, fun _ _ => .inl ⟨true, rfl⟩⟩
      show store.committed.lookup _ = _
      rw [hrows]
      exact lookup_entry_withSaved _ x
  · dsimp only at hresult
    have hunsaved : result ≠ .ok true := by
      rw [hresult]
      cases fault.isBackend <;> nofun
    refine ⟨hasked, ?_, ⟨fun h => absurd h hunsaved, fun h => ?_⟩, fun _ => ?_, ?_⟩
    · rw [hstore]
      exact htried.locked
    · rw [hstore] at h
      exact absurd (htried.commits.symm.trans h) (Nat.ne_of_lt (Nat.lt_succ_self _))
    · rw [hstore]
      exact htried.committed
    · rw [hstore, hsettled]
      refine ⟨htried.batches, fun h => absurd h hunsaved, fun hwait hstrike => ?_⟩
      rcases htells hwait hstrike with hbackend | ⟨flaw, hflaw, rfl⟩
      · exact .inl ⟨false, by rw [hresult, if_pos hbackend]⟩
      · exact .inr ⟨flaw, hflaw, hresult⟩

end

/-- Let a poller ask for a pair up to `n` times more after a failure, let the source give any
answers, and let the sessions of the engine close. Then the source is asked up to the first answer
that is no failure of the vendor, and `n + 1` times if there is none among these. Unless that answer
is a sighting, no batch is opened and nothing but the journal changes, and the query says that
nothing was saved, or fails with that answer. For a sighting one batch is opened, if one can be
opened at all. The query says that the pair was saved if and only if a commit passed, and then the
sighting is an observation in the committed rows; otherwise the committed rows stay. The lock is as
it was before in every case. -/
theorem query_outcomes (poller : Poller) (world : World) (pair : Pair) (n : Nat)
    (hretries : poller.maxRetries = n) (hclose : ∀ k, world.store.plan k .closeSession = none) :
    let out := world.perform (poller.query pair)
    poller.Queried world pair (n + 1) out.1 out.2 := by
  intro out
  have hattempts : poller.attempts = n + 1 := by
    unfold attempts
    omega
  obtain ⟨hfound, journal, hafter⟩ := perform_ask_settled poller pair world
  rw [hattempts] at hfound hafter
  have hask : world.perform (poller.ask pair) = (_, _) := Prod.ext hfound hafter
  have hout : out = _ := World.perform_bind world (poller.ask pair) (poller.keepFound pair)
  rw [hask] at hout
  clear hfound hafter hask
  cases hsettled : world.settled? pair (n + 1) with
  | none =>
    rw [hsettled] at hout
    rw [show out = (.ok false, _) from hout]
    refine queried_of_journal nofun ⟨journal, rfl⟩ (by rw [hsettled]) ?_
    rw [hsettled]
    exact ⟨rfl, journal, rfl⟩
  | some before =>
    rw [hsettled] at hout
    dsimp only [Option.elim_some] at hout
    cases hanswer : world.answer pair before with
    | error failure =>
      rw [hanswer] at hout
      rw [show out = (.error failure, _) from hout]
      refine queried_of_journal nofun ⟨journal, rfl⟩ (by rw [hsettled]; rfl) ?_
      rw [hsettled, Option.map_some, hanswer]
      exact ⟨rfl, journal, rfl⟩
    | ok y =>
      rw [hanswer] at hout
      let s : Store := { world.store with journal }
      let asked := List.replicate (before + 1) pair ++ world.asked
      have hkeep : out = World.perform { world with store := s, asked } (poller.keep pair y) := hout
      obtain ⟨⟨later, hafter⟩, hresult⟩ :=
        perform_keep_cases poller pair y { world with store := s, asked }
      rw [← hkeep] at hafter hresult
      have htried := (Store.tried_keep (s := s) hclose y poller.wait).imp
        (And.imp_left Store.Tried.of_journal) (And.imp_left Store.Tried.of_journal)
      refine queried_of_tried htried hresult ⟨later, by rw [hafter]⟩ ?_ ?_
      · rw [hafter, hsettled]
        rfl
      · rw [hsettled, Option.map_some, hanswer]

/-- With three more attempts a pair is saved although its vendor fails twice. -/
theorem query_after_two_failures :
    let source : Source := fun _ asked _ =>
      if asked.length < 2 then .error (.vendor ⟨.sourceFailed "simulated", some 503, .null⟩)
      else .ok Store.early
    let world : World := ⟨.fresh, source, [], hourly.lastPruned⟩
    let pair : Pair := ⟨"EUR", "USD"⟩
    let out := world.perform (hourly.query pair)
    (hourly.maxRetries = (3 : Nat) ∧ ∀ k, world.store.plan k .closeSession = none) ∧
      out.1 = .ok true ∧ out.2.asked = [pair, pair, pair] ∧
      out.2.store.committed.lookup (Key.ofObservation Store.early) =
        some Store.early.toRecord := by
  intro source world pair out
  have hclose : ∀ k, world.store.plan k .closeSession = none := fun _ => rfl
  have hquery : hourly.Queried world pair 4 out.1 out.2 :=
    query_outcomes hourly world pair 3 rfl hclose
  have hsettled : world.settled? pair 4 = some 2 := rfl
  have hcommits : commits out.2.store.trace = commits world.store.trace + 1 := by decide +kernel
  have hsaved := hquery.saved.2 hcommits
  have hasked := hquery.asked
  have hfollows := hquery.follows
  rw [hsettled] at hasked hfollows
  obtain ⟨x, hx, -, hlookup⟩ := hfollows.2.1 hsaved
  obtain rfl := Sighting.ofObservation_inj hx
  exact ⟨⟨rfl, hclose⟩, hsaved, hasked, hlookup⟩

end Poller

end RateLedger
