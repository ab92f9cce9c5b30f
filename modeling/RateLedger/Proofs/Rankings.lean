import RateLedger.Proofs.Actions
import RateLedger.Proofs.PrefixQueries
import RateLedger.Proofs.PrunedRuns
import RateLedger.Service

/-!
# Lists with the latest first

Observations are given out with the latest first, and the sort is stable: those of a second stay in
the order in which they were found (`latestFirst_zipIdx`). A scan finds them in the order of their
pairs, so what is recent is one list, ranked by falling seconds and then by pairs, and a limit only
says how much of its front is given out. The newest observations of some pairs are read from their
identity rows one after another, which comes to the last entries that a scan shows for the pairs, or
stops at the first pair that has none.
-/

namespace RateLedger

/-- Observations with their places in the list in which they were found: the later ones come first,
and those of a second by their places. -/
def IsRanked (order : List (Observation × Nat)) : Prop :=
  order.Pairwise fun a b =>
    b.1.seconds < a.1.seconds ∨ (a.1.seconds = b.1.seconds ∧ a.2 < b.2)

/-- What is sorted are the observations found, each once, and ties keep their places. -/
theorem latestFirst_zipIdx (found : List Observation) :
    ∃ order : List (Observation × Nat), order.Perm found.zipIdx ∧ IsRanked order ∧
      order.map Prod.fst = latestFirst found := by
  let le : Observation → Observation → Bool := fun a b => b.seconds ≤ a.seconds
  have hperm := List.mergeSort_perm found.zipIdx (List.zipIdxLE le)
  have hsorted := List.pairwise_mergeSort (List.zipIdxLE_trans falling_trans)
    (List.zipIdxLE_total falling_total) found.zipIdx
  -- No two observations have one place, so places that are not in order the one way are the other.
  have hplaces : ((found.zipIdx.mergeSort (List.zipIdxLE le)).map Prod.snd).Nodup := by
    rw [(hperm.map Prod.snd).nodup_iff, List.zipIdx_map_snd]
    exact List.nodup_range'
  refine ⟨_, hperm, ?_, List.mergeSort_zipIdx⟩
  refine hsorted.imp₂ (fun a b hle hplace => ?_) (List.pairwise_map.1 hplaces)
  by_cases hlater : b.1.seconds < a.1.seconds
  · exact .inl hlater
  · simp only [List.zipIdxLE, decide_eq_true_eq] at hle
    split at hle
    · rw [if_pos (by omega), decide_eq_true_eq] at hle
      exact .inr ⟨by omega, by omega⟩
    · cases hle

/-- Of two observations of a second, the one that was found first stays before the other. -/
theorem latestFirst_stable {found : List Observation} {before : Observation → Observation → Prop}
    (h : found.Pairwise before) :
    (latestFirst found).Pairwise fun a b =>
      b.seconds < a.seconds ∨ (a.seconds = b.seconds ∧ before a b) := by
  obtain ⟨order, hperm, hranked, hmap⟩ := latestFirst_zipIdx found
  rw [← hmap, List.pairwise_map]
  refine hranked.imp_of_mem fun {a b} ha hb hab => hab.imp_right (And.imp_right fun hlt => ?_)
  obtain ⟨-, hlast, hfirst⟩ := List.mem_zipIdx (hperm.mem_iff.1 ha)
  obtain ⟨-, hlast', hsecond⟩ := List.mem_zipIdx (hperm.mem_iff.1 hb)
  rw [hfirst, hsecond]
  exact List.pairwise_iff_getElem.1 h _ _ _ _ (by omega)

/-! ## What is recent -/

/-- An observation is listed before another one if it is later, or if it is of the same second and
its pair comes first. -/
def Observation.IsListedBefore (x y : Observation) : Prop :=
  y.seconds < x.seconds ∨ (x.seconds = y.seconds ∧ Bytes.ofText x.pairId < Bytes.ofText y.pairId)

namespace Observation

variable {x y : Observation}

theorem IsListedBefore.asymm (h : x.IsListedBefore y) : ¬y.IsListedBefore x := by
  rcases h with hlater | ⟨hsecond, hpair⟩
  · rintro (hearlier | ⟨hsecond, -⟩)
    · omega
    · omega
  · rintro (hearlier | ⟨-, hother⟩)
    · omega
    · exact List.lt_irrefl _ (List.lt_trans hpair hother)

/-- Observations are not listed before others of their own place. -/
theorem IsListedBefore.place_ne (h : x.IsListedBefore y) :
    (x.pairId, x.seconds) ≠ (y.pairId, y.seconds) := by
  intro heq
  obtain ⟨hpair, hsecond⟩ := Prod.mk.inj heq
  rcases h with hlater | ⟨-, hlt⟩
  · omega
  · exact List.lt_irrefl _ (hpair ▸ hlt)

/-- Of two observations of a second, the one with the lesser key is of another pair. -/
theorem Precedes.isListedBefore (h : x.Precedes y) (hsecond : x.seconds = y.seconds) :
    Bytes.ofText x.pairId < Bytes.ofText y.pairId := by
  rcases h with hlt | ⟨-, hlt⟩
  · exact hlt
  · omega

end Observation

/-- What is found in the order of keys is ranked by falling seconds and then by pairs. -/
theorem pairwise_latestFirst {found : List Observation}
    (h : found.Pairwise Observation.Precedes) :
    (latestFirst found).Pairwise Observation.IsListedBefore := by
  refine (latestFirst_stable h).imp fun {x y} hxy => hxy.imp_right fun hsame => ?_
  exact ⟨hsame.1, hsame.2.isListedBefore hsame.1⟩

/-- The reader for a text that observations are asked for with; the empty one is for everything. -/
def Cursor.ofQuery (view : View) (text : String) : Cursor :=
  if text = "" then .all view else .ofText view text

/-- A plain text asks for the pairs whose identifiers it begins. -/
theorem Store.reads_ofQuery {s : Store} {view : View} (hview : s.CanRead view)
    (hsound : (s.table view).IsSound) {text : String} (htext : IsPlain text) :
    s.Reads view (Cursor.ofQuery view text).toList
      (.ok (((s.table view).rows.filterMap shown?).filter
        fun x => text.toList.isPrefixOf x.pairId.toList)) := by
  unfold Cursor.ofQuery
  by_cases hempty : text = ""
  · have hall : ((s.table view).rows.filterMap shown?).filter
        (fun x => text.toList.isPrefixOf x.pairId.toList) =
        (s.table view).rows.filterMap shown? :=
      List.filter_eq_self.2 fun x _ => by rw [hempty]; rfl
    rw [if_pos hempty, hall]
    exact reads_all_of_isSound hview hsound
  · have hkeys : ((s.table view).rows.filterMap shown?).filter
        (fun x => text.toList.isPrefixOf x.pairId.toList) =
        ((s.table view).rows.filterMap shown?).filter
          fun x => (Key.identity text).isPrefixOf (Key.ofObservation x) := by
      refine List.filter_congr fun x _ => ?_
      rw [Bool.eq_iff_iff, List.isPrefixOf_iff_prefix, List.isPrefixOf_iff_prefix]
      exact (Key.identity_prefix_timed_iff_of_plain htext (Bytes.isModerate_second x.inTime)).symm
    rw [if_neg hempty, hkeys]
    exact reads_ofText hview hsound text

namespace Service

theorem recent_eq (text : String) (limit : Int) :
    recent text limit =
      if limit < 0 then throw (.refused "limit must be >= 0")
      else do
        let found ← Action.onStore (Cursor.ofQuery .committed text).toList
        return (latestFirst found).take limit.toNat := by
  unfold recent
  by_cases hlimit : limit < 0
  · rw [if_pos hlimit, if_pos hlimit]
    rfl
  · rw [if_neg hlimit, if_neg hlimit]
    rfl

/-- What is recent is the front of what a scan finds, with the latest first. -/
theorem perform_recent_eq (world : World) (text : String) {limit : Int} (h : 0 ≤ limit) :
    (world.perform (recent text limit)).1 =
      ((world.store.perform (Cursor.ofQuery .committed text).toList).1.mapError .store).map
        fun found => (latestFirst found).take limit.toNat := by
  rw [recent_eq, if_neg (Int.not_lt.2 h), World.perform_bind, World.perform_onStore]
  cases (world.store.perform (Cursor.ofQuery .committed text).toList).1 with
  | error fault => rfl
  | ok found => rfl

/-- What is recent of a history for a plain text is the front of one list. -/
theorem recent_of_holds {world : World} {history : History} (hreliable : world.store.IsReliable)
    (hholds : world.store.committed.Holds history) {text : String} (htext : IsPlain text) :
    ∃ ranked : List Observation,
      (∀ x, x ∈ ranked ↔ history.Has x ∧ text.toList <+: x.pairId.toList) ∧
      ranked.Pairwise Observation.IsListedBefore ∧
      ∀ limit : Int, 0 ≤ limit →
        (world.perform (recent text limit)).1 = .ok (ranked.take limit.toNat) := by
  have hview : world.store.CanRead .committed := trivial
  have hlists := hholds.lists
  obtain ⟨events, hscan⟩ := (Store.reads_ofQuery hview hholds.isSound htext).perform hreliable
  have hordered := hlists.ordered.filter fun x => text.toList.isPrefixOf x.pairId.toList
  refine ⟨_, fun x => ?_, pairwise_latestFirst hordered, fun limit hlimit => ?_⟩
  · rw [(latestFirst_perm _).mem_iff, List.mem_filter, hlists.mem, List.isPrefixOf_iff_prefix]
  · rw [perform_recent_eq world text hlimit, hscan]
    rfl

variable {operations : List Operation} {world : World}

/-- After any ordinary operations, what is recent for a plain text is the front of one list, as long
as the limit says: it has the observations of the history whose pairs the text begins, each once, by
falling seconds and for one second by the bytes of their pairs. So with a lesser limit the front of
what a greater one gives is given. -/
theorem recent_ranked (hoperations : ∀ operation ∈ operations, operation.IsOrdinary)
    (hstore : world.store = Store.fresh.afterAll operations) (text : String)
    (htext : IsPlain text) :
    let history := (Ledger.fresh.afterAll operations).committed
    let recentUpTo := fun limit => (world.perform (recent text limit)).1
    (∃ ranked : List Observation,
      (∀ x, x ∈ ranked ↔ history.Has x ∧ text.toList <+: x.pairId.toList) ∧
      ranked.Pairwise Observation.IsListedBefore ∧
      (ranked.map fun x => (x.pairId, x.seconds)).Nodup ∧
      ∀ limit : Int, 0 ≤ limit → recentUpTo limit = .ok (ranked.take limit.toNat)) ∧
    ∀ least most : Int, 0 ≤ least → least ≤ most → ∃ found, recentUpTo most = .ok found ∧
      recentUpTo least = .ok (found.take least.toNat) := by
  intro history recentUpTo
  have h : world.store.Mirrors (Ledger.fresh.afterAll operations) :=
    hstore ▸ Store.mirrors_afterAll hoperations
  obtain ⟨ranked, hmem, hranked, hgiven⟩ := recent_of_holds h.reliable h.committed htext
  refine ⟨⟨ranked, hmem, hranked, ?_, hgiven⟩, fun least most hleast hle => ?_⟩
  · exact List.pairwise_map.2 (hranked.imp Observation.IsListedBefore.place_ne)
  · have hmost : recentUpTo most = .ok (ranked.take most.toNat) := hgiven most (by omega)
    have htake : (ranked.take most.toNat).take least.toNat = ranked.take least.toNat := by
      rw [List.take_take, Nat.min_eq_left (by omega)]
    exact ⟨_, hmost, htake ▸ hgiven least hleast⟩

/-- A world with a store at a time, where the source has no answers. -/
def resting (clock : Time.DateTime) (store : Store) : World :=
  ⟨store, fun _ _ _ => .error (.refused "simulated"), [], clock⟩

@[simp] theorem store_resting (clock : Time.DateTime) (store : Store) :
    (resting clock store).store = store := rfl

theorem recent_outOfOrder :
    let operations := Store.outOfOrder.map Operation.call
    let world := resting Store.epoch (Store.fresh.afterAll operations)
    (∀ operation ∈ operations, operation.IsOrdinary) ∧ IsPlain "EUR" ∧
    (world.perform (recent "EUR" 1)).1 = .ok [Store.longer] := by
  intro operations world
  have hoperations : ∀ operation ∈ operations, operation.IsOrdinary :=
    Store.isOrdinary_calls Store.isOrdinary_outOfOrder
  have hplain : IsPlain "EUR" := by decide
  have hstore : world.store = Store.fresh.afterAll operations := store_resting _ _
  obtain ⟨⟨ranked, hmem, hranked, -, hgiven⟩, -⟩ :=
    recent_ranked hoperations hstore "EUR" hplain
  rw [Ledger.afterAll_calls] at hmem
  have hlisted : ∀ x, x ∈ ranked ↔ x ∈ [Store.longer, Store.early] := by
    intro x
    rw [hmem, ← Store.lists_outOfOrder.mem]
    constructor
    · rintro ⟨hx, -⟩
      rcases List.mem_pair.1 hx with rfl | rfl
      · simp
      · simp
    · intro hx
      rcases List.mem_pair.1 hx with rfl | rfl
      · exact ⟨by simp, by decide⟩
      · exact ⟨by simp, by decide⟩
  have heq : ranked = [Store.longer, Store.early] :=
    eq_of_pairwise_of_mem_iff (fun _ _ => Observation.IsListedBefore.asymm) hranked
      (List.pairwise_pair.2 (.inl (by decide))) hlisted
  rw [heq] at hgiven
  exact ⟨hoperations, hplain, hgiven 1 (by decide)⟩

end Service

/-! ## The newest of several pairs -/

/-- The last entry of a pair in a list. -/
def lastOfPair? (list : List Observation) (pairId : String) : Option Observation :=
  (list.filter fun x => x.pairId = pairId).getLast?

theorem Observation.precedes_iff_of_pairId_eq {x y : Observation} (h : x.pairId = y.pairId) :
    x.Precedes y ↔ x.seconds < y.seconds := by
  unfold Precedes
  rw [h]
  simp [List.lt_irrefl]

/-- The last entry that a scan shows for a pair is the newest one of the pair. -/
theorem History.Lists.lastOfPair?_eq_some_iff {history : History} {list : List Observation}
    (hlists : history.Lists list) {pairId : String} {x : Observation} :
    lastOfPair? list pairId = some x ↔ history.IsNewest x ∧ x.pairId = pairId := by
  have hmem : ∀ y, y ∈ list.filter (fun y => y.pairId = pairId) ↔
      history.Has y ∧ y.pairId = pairId := by
    intro y
    rw [List.mem_filter, hlists.mem, decide_eq_true_eq]
  unfold lastOfPair?
  rw [getLast?_eq_some_iff_of_pairwise (fun _ _ => Observation.Precedes.asymm)
    (hlists.ordered.filter _), hmem]
  constructor
  · rintro ⟨⟨hx, rfl⟩, hlast⟩
    refine ⟨⟨hx, fun y hy hpair => ?_⟩, rfl⟩
    have hnot := hlast y ((hmem y).2 ⟨hy, hpair⟩)
    rw [Observation.precedes_iff_of_pairId_eq hpair.symm] at hnot
    omega
  · rintro ⟨hx, rfl⟩
    refine ⟨⟨hx.has, rfl⟩, fun y hy => ?_⟩
    obtain ⟨hhas, hpair⟩ := (hmem y).1 hy
    rw [Observation.precedes_iff_of_pairId_eq hpair.symm]
    exact Nat.not_lt.2 (hx.le y hhas hpair)

/-- The identity row of a plain pair gives the last entry that a scan shows for the pair. -/
theorem Table.Holds.readNewest_eq {table : Table} {history : History} {list : List Observation}
    (hholds : table.Holds history) (hlists : history.Lists list) {pairId : String}
    (hp : IsPlain pairId) :
    table.readNewest pairId =
      (lastOfPair? list pairId).elim (.error (.notFound pairId)) .ok := by
  rcases hholds.readNewest_cases hp with ⟨x, hx, hpair, hread⟩ | ⟨hnone, hread⟩
  · rw [hread, hlists.lastOfPair?_eq_some_iff.2 ⟨hx, hpair⟩]
    rfl
  · have hlast : lastOfPair? list pairId = none := by
      rw [Option.eq_none_iff_forall_ne_some]
      intro x hx
      obtain ⟨hnewest, hpair⟩ := hlists.lastOfPair?_eq_some_iff.1 hx
      exact hnone x hnewest.has hpair
    rw [hread, hlast]
    rfl

/-- Reading one thing after another finds all of them, or stops at the first that is missing. -/
theorem mapM_of_look {read : α → Except ε β} {look? : α → Option β} {missing : α → ε}
    {as : List α} (h : ∀ a ∈ as, read a = (look? a).elim (.error (missing a)) .ok) :
    match as.find? fun a => (look? a).isNone with
    | some a => as.mapM read = .error (missing a)
    | none => ∃ found, as.mapM read = .ok found ∧ as.map look? = found.map some := by
  induction as with
  | nil => exact ⟨[], rfl, rfl⟩
  | cons a rest ih =>
    obtain ⟨hread, hrest⟩ := List.forall_mem_cons.1 h
    have hlater := ih hrest
    rw [List.find?_cons, List.mapM_cons, hread]
    cases hlook : look? a with
    | none => rfl
    | some b =>
      dsimp only [Option.isNone_some, Option.elim_some]
      cases hfind : rest.find? fun a => (look? a).isNone with
      | some other =>
        rw [hfind] at hlater
        dsimp only at hlater ⊢
        rw [hlater]
        rfl
      | none =>
        rw [hfind] at hlater
        obtain ⟨found, hfound, hmap⟩ := hlater
        dsimp only
        rw [hfound]
        exact ⟨b :: found, rfl, by rw [List.map_cons, List.map_cons, hlook, hmap]⟩

namespace Service

/-- Reading the newest observation of a pair shows in nothing but the trace. -/
theorem perform_newest_eq {world : World} (hreliable : world.store.IsReliable) (pairId : String) :
    ∃ events, world.perform (newest pairId) =
      ((world.store.committed.readNewest pairId).mapError .store,
        { world with store := world.store.withTrace events }) := by
  have hview : world.store.CanRead .committed := trivial
  obtain ⟨events, hread⟩ := (Store.reads_newest hview pairId).perform hreliable
  refine ⟨events ++ world.store.trace, ?_⟩
  unfold newest
  rw [World.perform_onStore, hread]
  rfl

/-- With a reliable engine the newest observations are read one after another from one table. -/
theorem perform_mapM_newest_eq (world : World) (hreliable : world.store.IsReliable)
    (pairs : List Pair) :
    (world.perform (pairs.mapM fun pair => newest pair.id)).1 =
      (pairs.mapM fun pair => world.store.committed.readNewest pair.id).mapError .store := by
  induction pairs generalizing world with
  | nil => rfl
  | cons pair rest ih =>
    obtain ⟨events, hread⟩ := perform_newest_eq hreliable pair.id
    rw [List.mapM_cons, List.mapM_cons, World.perform_bind, hread]
    cases world.store.committed.readNewest pair.id with
    | error fault => rfl
    | ok x =>
      have hrest := ih { world with store := world.store.withTrace events } hreliable
      show (World.perform _ (_ >>= _)).1 = _
      rw [World.perform_bind]
      change _ =
        (rest.mapM fun pair => world.store.committed.readNewest pair.id).mapError _ at hrest
      generalize (rest.mapM fun pair => world.store.committed.readNewest pair.id) = found at hrest ⊢
      generalize World.perform _ (rest.mapM fun pair => newest pair.id) = out at hrest ⊢
      obtain ⟨given, after⟩ := out
      obtain rfl : given = found.mapError .store := hrest
      cases found with
      | error fault => rfl
      | ok list => rfl

variable {operations : List Operation} {world : World}

/-- After any ordinary operations, the observations given out together for plain pairs agree with a
full scan. The first pair in the order of the settings that the scan shows nothing of is reported;
where there is none, the last entry of each pair is given out, one for each pair, by falling seconds
and for one second in the order of the settings. -/
theorem newestOfAll_agrees_with_scan (service : Service)
    (hoperations : ∀ operation ∈ operations, operation.IsOrdinary)
    (hstore : world.store = Store.fresh.afterAll operations)
    (hplain : ∀ pair ∈ service.aggregated, IsPlain pair.base ∧ IsPlain pair.quote) :
    let history := (Ledger.fresh.afterAll operations).committed
    let given := (world.perform service.newestOfAll).1
    ∃ list, (world.store.perform (Cursor.all .committed).toList).1 = .ok list ∧
      history.Lists list ∧
      match service.aggregated.find? fun pair => (lastOfPair? list pair.id).isNone with
      | some pair => given = .error (.store (.notFound pair.id))
      | none => ∃ (found : List Observation) (order : List (Observation × Nat)),
          service.aggregated.map (fun pair => lastOfPair? list pair.id) = found.map some ∧
          order.Perm found.zipIdx ∧ IsRanked order ∧ given = .ok (order.map Prod.fst) := by
  intro history given
  have h : world.store.Mirrors (Ledger.fresh.afterAll operations) :=
    hstore ▸ Store.mirrors_afterAll hoperations
  obtain ⟨list, hscan, hlists⟩ := h.scan (Ledger.history?_committed _)
  refine ⟨list, hscan, hlists, ?_⟩
  have hread : ∀ pair ∈ service.aggregated, world.store.committed.readNewest pair.id =
      (lastOfPair? list pair.id).elim (.error (.notFound pair.id)) .ok := by
    intro pair hpair
    obtain ⟨hbase, hquote⟩ := hplain pair hpair
    exact h.committed.readNewest_eq hlists ((hbase.append (by decide)).append hquote)
  have hgiven : given = ((service.aggregated.mapM fun pair =>
      world.store.committed.readNewest pair.id).mapError .store).map latestFirst := by
    rw [← perform_mapM_newest_eq world h.reliable]
    exact congrArg Prod.fst (world.perform_map latestFirst _)
  have hall := mapM_of_look hread
  cases hfind : service.aggregated.find? fun pair => (lastOfPair? list pair.id).isNone with
  | some pair =>
    rw [hfind] at hall
    rw [hgiven, hall]
    rfl
  | none =>
    rw [hfind] at hall
    obtain ⟨found, hfound, hmap⟩ := hall
    obtain ⟨order, hperm, hranked, horder⟩ := latestFirst_zipIdx found
    refine ⟨found, order, hmap, hperm, hranked, ?_⟩
    rw [hgiven, hfound, horder]
    rfl

/-- What a pruning has removed is missing, and what it has left is given out. -/
theorem newestOfAll_prunedOutOfOrder :
    let world := resting Store.epoch (Store.fresh.afterAll Store.prunedOutOfOrder)
    let left : Service := ⟨[⟨"EUR", "USDT"⟩], ⟨0⟩⟩
    let gone : Service := ⟨[⟨"EUR", "USDT"⟩, ⟨"EUR", "USD"⟩], ⟨0⟩⟩
    ((∀ operation ∈ Store.prunedOutOfOrder, operation.IsOrdinary) ∧
      ∀ pair ∈ gone.aggregated, IsPlain pair.base ∧ IsPlain pair.quote) ∧
    (world.perform left.newestOfAll).1 = .ok [Store.longer] ∧
    (world.perform gone.newestOfAll).1 = .error (.store (.notFound "EUR2USD")) := by
  intro world left gone
  have hoperations := Store.isOrdinary_prunedOutOfOrder
  have hstore : world.store = Store.fresh.afterAll Store.prunedOutOfOrder := store_resting _ _
  have hgone : ∀ pair ∈ gone.aggregated, IsPlain pair.base ∧ IsPlain pair.quote := by decide
  have hleft : ∀ pair ∈ left.aggregated, IsPlain pair.base ∧ IsPlain pair.quote := by decide
  refine ⟨⟨hoperations, hgone⟩, ?_, ?_⟩
  · obtain ⟨list, -, hlists, hgiven⟩ := newestOfAll_agrees_with_scan left hoperations hstore hleft
    obtain rfl := hlists.unique Store.lists_prunedOutOfOrder
    have hfind : left.aggregated.find?
        (fun pair => (lastOfPair? [Store.longer] pair.id).isNone) = none := by decide
    rw [hfind] at hgiven
    obtain ⟨found, order, hmap, hperm, -, hok⟩ := hgiven
    have hlast : left.aggregated.map (fun pair => lastOfPair? [Store.longer] pair.id) =
        [Store.longer].map some := by decide
    have hfound : found = [Store.longer] :=
      List.map_injective_iff.2 (Option.some_injective _) (hmap.symm.trans hlast)
    rw [hfound] at hperm
    rw [hok, List.perm_singleton.1 hperm]
    rfl
  · obtain ⟨list, -, hlists, hgiven⟩ := newestOfAll_agrees_with_scan gone hoperations hstore hgone
    obtain rfl := hlists.unique Store.lists_prunedOutOfOrder
    have hfind : gone.aggregated.find?
        (fun pair => (lastOfPair? [Store.longer] pair.id).isNone) = some ⟨"EUR", "USD"⟩ := by decide
    rw [hfind] at hgiven
    exact hgiven

end Service

end RateLedger
