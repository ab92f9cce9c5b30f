import RateLedger.Poller
import RateLedger.Proofs.Actions
import RateLedger.Proofs.Answers
import RateLedger.Proofs.OwnBatches
import RateLedger.Proofs.Rankings
import RateLedger.Proofs.RecordForms
import RateLedger.Proofs.Scannable
import RateLedger.Server

/-!
# What is taken in from a vendor

A vendor may send codes of any length, and an observation is made and saved of whatever it sends;
but a code of more than four million bytes is not read back. So after an answer was taken in, either
the store goes on as before (`IsUsable`), or every scan stops at the new row, every pruning too, and
so does every saving in the pair, if the new row is the newest one there (`IsBlocked`); which of the
two is decided by the length of the codes (`accepted_answer_kept`).
-/

namespace RateLedger

theorem Cursor.readRows_of_unreadable {rows : List Row} {value : Bytes} {fault : StoreFault}
    (hread : readRecord value = .error fault) (h : ∀ row ∈ rows, IsSound row ∨ row.2 = value)
    {row : Row} (hmem : row ∈ rows) (hrow : row.2 = value) (found : List Observation) :
    readRows none rows found = .error fault := by
  induction rows generalizing found with
  | nil => cases hmem
  | cons first rest ih =>
    unfold readRows
    rw [if_neg (by simp)]
    dsimp only
    by_cases hfirst : first.2 = value
    · have hclassify : classify first = .error fault := by
        unfold classify
        rw [hfirst, hread]
      rw [hclassify]
      rfl
    · have hsound := (h first List.mem_cons_self).resolve_right hfirst
      have hlater : row ∈ rest := by
        rcases List.mem_cons.1 hmem with rfl | hlater
        · exact absurd hrow hfirst
        · exact hlater
      have hrest := ih (fun other hother => h other (List.mem_cons_of_mem _ hother)) hlater
      rw [classify_of_isSound hsound]
      cases shown? first with
      | none => exact hrest found
      | some x => exact hrest (x :: found)

/-- The record of an observation that cannot be read stands under its key, and all other rows below
the root can be read or hold the same. -/
structure Table.IsSpoilt (table : Table) (x : Observation) : Prop where
  entry : table.lookup (Key.ofObservation x) = some x.toRecord
  rows : ∀ row ∈ table.rows, Key.root <+: row.1 → RateLedger.IsSound row ∨ row.2 = x.toRecord

namespace Table

variable {table : Table} {x : Observation} {fault : StoreFault}

theorem IsScannable.isSpoilt (h : table.IsScannable) (x : Observation) :
    (table.written (table.draft (.save x)).writes).IsSpoilt x := by
  have hentered : (table.insert (Key.ofObservation x) x.toRecord).IsSpoilt x := by
    refine ⟨(table.lookup_insert _ _ _).trans (if_pos rfl), fun row hrow hroot => ?_⟩
    rcases mem_insertRow hrow with rfl | hold
    · exact .inr rfl
    · exact .inl (h row hold hroot)
  show ((table.insert (Key.ofObservation x) x.toRecord).written
    ((table.insert (Key.ofObservation x) x.toRecord).draftNewest x).writes).IsSpoilt x
  generalize table.insert (Key.ofObservation x) x.toRecord = entered at hentered ⊢
  rcases writes_draftNewest entered x with hwrites | hwrites <;> rw [hwrites]
  · exact hentered
  · refine ⟨(entered.lookup_insert _ _ _).trans ?_, fun row hrow hroot => ?_⟩
    · exact (if_neg (Key.timed_ne_identity_self x.pairId x.seconds)).trans hentered.entry
    · rcases mem_insertRow hrow with rfl | hold
      · exact .inr rfl
      · exact hentered.rows row hold hroot

/-- Nothing that leads over the spoilt row can be scanned. -/
theorem IsSpoilt.readRows (h : table.IsSpoilt x) (hread : readRecord x.toRecord = .error fault)
    {pre : Bytes} (hroot : Key.root <+: pre) (hpre : pre <+: Key.ofObservation x) :
    Cursor.readRows none (table.range pre (Key.upperBound? pre)) [] = .error fault := by
  have hmem : (Key.ofObservation x, x.toRecord) ∈ table.range pre (Key.upperBound? pre) :=
    mem_range.2 ⟨mem_rows_iff_lookup.2 h.entry, Key.inRange_upperBound_iff.2 hpre⟩
  refine Cursor.readRows_of_unreadable hread (fun row hrow => ?_) hmem rfl []
  obtain ⟨hrow, hrange⟩ := mem_range.1 hrow
  exact h.rows row hrow (hroot.trans (Key.inRange_upperBound_iff.1 hrange))

theorem answer_draftNewest_of_unreadable {y : Observation} {value : Bytes}
    (hidentity : table.lookup (Key.ofPair y) = some value)
    (hread : readRecord value = .error fault) : (table.draftNewest y).answer = .error fault := by
  unfold draftNewest
  rw [hidentity]
  dsimp only
  rw [hread]

/-- Nothing can be saved in a pair whose identity row cannot be read. -/
theorem answer_of_unreadable (hread : readRecord x.toRecord = .error fault)
    (hidentity : table.lookup (Key.ofPair x) = some x.toRecord) {y : Observation}
    (hpair : y.pairId = x.pairId) : (table.draft (.save y)).answer = .error fault := by
  refine answer_draftNewest_of_unreadable ((lookup_entered table y).trans ?_) hread
  rw [Key.ofPair, hpair]
  exact hidentity

end Table

namespace Store

/-- A store goes on: it can be scanned as a whole and by texts, saved to and pruned. -/
structure IsUsable (s : Store) : Prop where
  scan : ∃ list, (s.perform (Cursor.all .committed).toList).1 = .ok list
  recent : ∀ (world : World) text limit, world.store = s → 0 ≤ limit →
    ∃ list, (world.perform (Service.recent text limit)).1 = .ok list
  keep : ∀ (x : Observation) wait, waitTooLong wait = false →
    (s.perform (keep x wait)).1 = .ok ⟨⟩
  prune : ∀ cutoff wait, cutoff.offset.isSome = true → waitTooLong wait = false →
    ∃ count, (s.perform (prune cutoff wait)).1 = .ok count

/-- A store is stopped by the row of an observation: by every scan that leads over it, by every
pruning, and by every saving in the pair if the identity row holds the same. -/
structure IsBlocked (s : Store) (x : Observation) (fault : StoreFault) : Prop where
  scan : (s.perform (Cursor.all .committed).toList).1 = .error fault
  recent : ∀ (world : World) text limit, world.store = s → 0 ≤ limit →
    Key.identity text <+: Key.ofObservation x →
    (world.perform (Service.recent text limit)).1 = .error (.store fault)
  keep : s.committed.lookup (Key.ofPair x) = some x.toRecord →
    ∀ (y : Observation) wait, y.pairId = x.pairId → waitTooLong wait = false →
      (s.perform (keep y wait)).1 = .error fault
  prune : ∀ cutoff wait, cutoff.offset.isSome = true → waitTooLong wait = false →
    (s.perform (prune cutoff wait)).1 = .error fault

section

variable {s : Store} {x : Observation} {fault : StoreFault}

theorem perform_reads {step : StoreM α} {answer : Except StoreFault α} (hs : s.IsReliable)
    (h : s.Reads view step answer) : (s.perform step).1 = answer := by
  obtain ⟨events, hperform⟩ := h.perform hs
  rw [hperform]

/-- What is recent is read by a scan of the store or of a prefix. -/
theorem perform_recent (world : World) (text : String) {limit : Int} (h : 0 ≤ limit) :
    ∃ pre, Key.root <+: pre ∧ pre <+: Key.identity text ∧
      (world.perform (Service.recent text limit)).1 =
        ((world.store.perform (Cursor.ofPrefix .committed pre).toList).1.mapError .store).map
          fun list => (latestFirst list).take limit.toNat := by
  have hrecent := Service.perform_recent_eq world text h
  unfold Cursor.ofQuery at hrecent
  by_cases htext : text = ""
  · rw [if_pos htext] at hrecent
    exact ⟨Key.root, List.prefix_rfl, Key.root_prefix_identity text, hrecent⟩
  · rw [if_neg htext] at hrecent
    exact ⟨Key.identity text, Key.root_prefix_identity text, List.prefix_rfl, hrecent⟩

theorem scan_of_isScannable (hs : s.IsReliable) (h : s.committed.IsScannable) {pre : Bytes}
    (hroot : Key.root <+: pre) :
    ∃ list, (s.perform (Cursor.ofPrefix .committed pre).toList).1 = .ok list := by
  have hview : s.CanRead .committed := trivial
  exact ⟨_, perform_reads hs (reads_ofPrefix hview h hroot)⟩

theorem isUsable_of_isScannable (hs : s.IsReliable) (hfree : s.locked = false)
    (h : s.committed.IsScannable) : s.IsUsable where
  scan := scan_of_isScannable hs h List.prefix_rfl
  recent world text limit hworld hlimit := by
    obtain ⟨pre, hroot, -, hperform⟩ := perform_recent world text hlimit
    obtain ⟨list, hlist⟩ := scan_of_isScannable hs h hroot
    rw [hperform, hworld, hlist]
    exact ⟨_, rfl⟩
  keep x wait hwait := by
    obtain ⟨t, hrun, -⟩ := perform_keep hs hfree hwait x
    rw [hrun]
    exact h.answer nofun
  prune cutoff wait hcutoff hwait := prune_isOk hs hfree h hcutoff hwait

/-- A store is known to be scannable once it was scanned as a whole. -/
theorem isScannable_of_scan (hs : s.IsReliable)
    (h : ∃ list, (s.perform (Cursor.all .committed).toList).1 = .ok list) :
    s.committed.IsScannable := by
  obtain ⟨list, hlist⟩ := h
  have hview : s.CanRead .committed := trivial
  have hall := hlist.symm.trans (perform_reads hs (Cursor.reads_toList hview Key.root))
  cases hrows : Cursor.readRows none (s.committed.range Key.root (Key.upperBound? Key.root)) [] with
  | ok out => exact Table.isScannable_iff.2 ⟨out, hrows⟩
  | error fault =>
    rw [show s.table .committed = s.committed from rfl, hrows] at hall
    cases hall

theorem reads_spoilt {view : View} (hview : s.CanRead view) (h : (s.table view).IsSpoilt x)
    (hread : readRecord x.toRecord = .error fault) {pre : Bytes} (hroot : Key.root <+: pre)
    (hpre : pre <+: Key.ofObservation x) :
    s.Reads view (Cursor.ofPrefix view pre).toList (.error fault) := by
  have hreads := Cursor.reads_toList hview pre
  rw [h.readRows hread hroot hpre] at hreads
  exact hreads

theorem scan_of_isSpoilt (hs : s.IsReliable) (h : s.committed.IsSpoilt x)
    (hread : readRecord x.toRecord = .error fault) {pre : Bytes} (hroot : Key.root <+: pre)
    (hpre : pre <+: Key.ofObservation x) :
    (s.perform (Cursor.ofPrefix .committed pre).toList).1 = .error fault := by
  have hview : s.CanRead .committed := trivial
  exact perform_reads hs (reads_spoilt hview h hread hroot hpre)

theorem makes_olderThan {t : Store} {b : Nat} (hopen : t.isOpen b = true)
    (h : (t.viewOf b).IsSpoilt x) (hread : readRecord x.toRecord = .error fault)
    {cutoff : Time.DateTime} (hcutoff : cutoff.offset.isSome = true) :
    t.Makes b (olderThan b cutoff) [] (.error fault) := by
  have hview : t.CanRead (.batch b) := hopen
  have hscan := reads_spoilt hview h hread List.prefix_rfl
    (Key.root_prefix_timed x.pairId x.seconds)
  have hreads : t.Reads (.batch b) (olderThan b cutoff) (.error fault) := by
    unfold olderThan
    rw [hcutoff]
    exact hscan.bind_error
  exact .of_reads hopen hreads ((untouched_consulted t (.batch b)).olderThan hcutoff)

theorem isBlocked_of_isSpoilt (hs : s.IsReliable) (hfree : s.locked = false)
    (h : s.committed.IsSpoilt x) (hread : readRecord x.toRecord = .error fault) :
    s.IsBlocked x fault where
  scan := scan_of_isSpoilt hs h hread List.prefix_rfl (Key.root_prefix_timed x.pairId x.seconds)
  recent world text limit hworld hlimit htext := by
    obtain ⟨pre, hroot, hpre, hperform⟩ := perform_recent world text hlimit
    rw [hperform, hworld, scan_of_isSpoilt hs h hread hroot (hpre.trans htext)]
    rfl
  keep hidentity y wait hpair hwait := by
    obtain ⟨t, hrun, -⟩ := perform_keep hs hfree hwait y
    rw [hrun]
    exact Table.answer_of_unreadable hread hidentity hpair
  prune cutoff wait hcutoff hwait := by
    obtain ⟨t, hrun, -⟩ := perform_batched hs hfree hwait (fun b => sweep b cutoff) []
      (.error fault) fun t hopen hview =>
        (makes_olderThan hopen (hview ▸ h) hread hcutoff).bind_error
    have hbatch : s.perform (withBatch wait fun b => sweepAndCommit b cutoff) = (.error fault, t) :=
      hrun
    rw [prune_eq, perform_bind, hbatch]

/-- A store into which an observation was taken goes on if the observation can be read back, and is
stopped by its row if a code of it is too long. -/
structure HasTakenIn (s : Store) (x : Observation) : Prop where
  usable : x.IsReadable → s.IsUsable
  blocked : ∀ length, x.tooLong? = some length → length < Number.twoTo 64 →
    s.IsBlocked x (.record (.tooLong length))

theorem hasTakenIn_of_keep (hs : s.IsReliable) (h : s.committed.IsScannable) {wait : Binary64}
    (hkept : (s.perform (Store.keep x wait)).1 = .ok ⟨⟩) :
    (s.perform (Store.keep x wait)).2.HasTakenIn x := by
  obtain ⟨hwait, hfree⟩ := free_of_withBatch hkept
  obtain ⟨t, hrun, hreliable, hunlocked, hcommitted⟩ := perform_keep hs hfree hwait x
  rw [hrun] at hkept ⊢
  dsimp only at hkept ⊢
  rw [hkept] at hcommitted
  have hrows := hcommitted rfl
  constructor
  · intro hreadable
    refine isUsable_of_isScannable hreliable hunlocked ?_
    rw [hrows]
    exact h.written_draft fun y hy => Edit.save.inj hy ▸ hreadable
  · intro length hlong hword
    refine isBlocked_of_isSpoilt hreliable hunlocked ?_ ?_
    · rw [hrows]
      exact h.isSpoilt x
    · unfold readRecord
      rw [Record.decode_tooLong hlong hword]

end

end Store

/-! ## Fetching and polling -/

namespace Service

theorem perform_fetch {world : World} {service : Service} {pair : Pair} {y : Sighting}
    (h : (world.perform (fetch service pair)).1 = .ok y) :
    world.source world.clock world.asked pair = .ok y ∧
      (world.store.perform (Store.keep y service.wait)).1 = .ok ⟨⟩ ∧
      (world.perform (fetch service pair)).2.store =
        (world.store.perform (Store.keep y service.wait)).2 := by
  unfold fetch at h ⊢
  rw [World.perform_bind, World.perform_ask] at h ⊢
  cases hanswer : world.source world.clock world.asked pair with
  | error failure =>
    rw [hanswer] at h
    cases h
  | ok y =>
    simp only [hanswer, World.perform_bind, World.perform_onStore] at h ⊢
    cases hkeep : (world.store.perform (Store.keep y service.wait)).1 with
    | error fault =>
      rw [hkeep] at h
      cases h
    | ok done =>
      rw [hkeep] at h
      cases h
      exact ⟨rfl, hkeep, rfl⟩

end Service

namespace Poller

/-- What was fetched is an answer of the source, and fetching leaves the store as it was but for its
journal. -/
theorem perform_fetch {world after : World} {pair : Pair} {attempts failed : Nat} {y : Sighting}
    (h : world.perform (fetch pair attempts failed) = (.ok (some y), after)) :
    (∃ asked, world.source world.clock asked pair = .ok y) ∧
      ∃ journal, after.store = { world.store with journal } := by
  induction attempts generalizing world failed with
  | zero => cases h
  | succ attempts ih =>
    unfold fetch at h
    rw [World.perform_bind, World.perform_attempt, World.perform_ask] at h
    dsimp only at h
    cases hanswer : world.source world.clock world.asked pair with
    | ok z =>
      rw [hanswer] at h
      cases h
      exact ⟨⟨_, hanswer⟩, _, rfl⟩
    | error failure =>
      rw [hanswer] at h
      cases failure with
      | vendor error =>
        dsimp only at h
        rw [World.perform_bind, World.perform_note] at h
        obtain ⟨hsource, journal, hstore⟩ := ih h
        exact ⟨hsource, journal, hstore⟩
      | _ => cases h

theorem perform_keep {world : World} {poller : Poller} {pair : Pair} {y : Sighting}
    (h : (world.perform (poller.keep pair y)).1 = .ok true) :
    (world.store.perform (Store.keep y poller.wait)).1 = .ok ⟨⟩ ∧
      (world.perform (poller.keep pair y)).2.store =
        (world.store.perform (Store.keep y poller.wait)).2 := by
  unfold keep at h ⊢
  simp only [World.perform_bind, World.perform_attempt, World.perform_onStore] at h ⊢
  cases hkeep : (world.store.perform (Store.keep y poller.wait)).1 with
  | ok done => exact ⟨rfl, rfl⟩
  | error fault =>
    rw [hkeep] at h
    change (World.perform _ (if fault.isBackend then _ else _)).1 = _ at h
    cases hbackend : fault.isBackend with
    | true =>
      rw [hbackend, if_pos rfl] at h
      cases h
    | false =>
      rw [hbackend, if_neg Bool.false_ne_true] at h
      cases h

/-- What was polled for and saved is an answer of the source, and saving it is all that was done to
the store, but for its journal. -/
theorem perform_query {world : World} {poller : Poller} {pair : Pair}
    (h : (world.perform (poller.query pair)).1 = .ok true) :
    ∃ y asked journal, world.source world.clock asked pair = .ok y ∧
      let saved := ({ world.store with journal } : Store).perform (Store.keep y poller.wait)
      saved.1 = .ok ⟨⟩ ∧ (world.perform (poller.query pair)).2.store = saved.2 := by
  unfold query ask at h ⊢
  simp only [World.perform_bind, World.perform_note] at h ⊢
  generalize hfetch : World.perform _ (fetch pair poller.attempts 0) = fetched at h ⊢
  rcases fetched with ⟨_ | _ | y, after⟩
  · cases h
  · cases h
  · obtain ⟨⟨asked, hsource⟩, journal, hstore⟩ := perform_fetch hfetch
    obtain ⟨hkeep, hafter⟩ := perform_keep h
    refine ⟨y, asked, journal, hsource, ?_⟩
    rw [hstore] at hkeep hafter
    exact ⟨hkeep, hafter⟩

end Poller

theorem Vendor.Client.source_of_delivery (client : Client) {machine : Machine}
    (deliver : Nat → Request → Delivery) {pair : Pair} {y : Sighting} (hask : canAsk pair = true)
    (h : ∀ number, readDelivery machine (deliver number (client.request pair)) = .ok y)
    (clock : Time.DateTime) (asked : List Pair) :
    client.source machine deliver clock asked pair = .ok y := by
  unfold source rate
  rw [if_pos hask, h]

theorem Vendor.Client.exists_delivery {client : Client} {machine : Machine}
    {deliver : Nat → Request → Delivery} {clock : Time.DateTime} {asked : List Pair} {pair : Pair}
    {y : Sighting} (h : client.source machine deliver clock asked pair = .ok y) :
    ∃ number, readDelivery machine (deliver number (client.request pair)) = .ok y := by
  change client.rate machine _ pair = .ok y at h
  unfold rate at h
  split at h
  · exact ⟨_, h⟩
  · cases h

/-- Let a store be scannable as a whole, and a vendor's answer be read as an observation and saved,
on demand or by a poller. If its codes can be read back, the store goes on: it can be scanned as a
whole and by every text, every observation can be saved, in the same pair too, and it can be pruned
for every cutoff. If one of its codes is too long, every scan over its row fails with the length of
that code, so does every pruning, and so does every saving in the pair where the row is repeated
under the identity key. -/
theorem accepted_answer_kept (client : Vendor.Client) (machine : Vendor.Machine)
    (deliver : Nat → Vendor.Request → Vendor.Delivery) (world : World) (pair : Pair)
    (hreliable : world.store.IsReliable)
    (hscan : ∃ list, (world.store.perform (Cursor.all .committed).toList).1 = .ok list)
    (hsource : world.source = client.source machine deliver) :
    (∀ service y, (world.perform (Service.fetch service pair)).1 = .ok y →
      ∃ x : Observation, y = x ∧
        (∃ number, Vendor.Client.readDelivery machine (deliver number (client.request pair)) =
          .ok (x : Sighting)) ∧
        (world.perform (Service.fetch service pair)).2.store.HasTakenIn x) ∧
    ∀ poller : Poller, (world.perform (poller.query pair)).1 = .ok true →
      ∃ x : Observation,
        (∃ number, Vendor.Client.readDelivery machine (deliver number (client.request pair)) =
          .ok (x : Sighting)) ∧
        (world.perform (poller.query pair)).2.store.HasTakenIn x := by
  have hscannable := Store.isScannable_of_scan hreliable hscan
  constructor
  · intro service y hfetch
    obtain ⟨hanswer, hkept, hstore⟩ := Service.perform_fetch hfetch
    obtain ⟨x, rfl⟩ := Store.exists_of_keep hkept
    rw [hsource] at hanswer
    refine ⟨x, rfl, Vendor.Client.exists_delivery hanswer, ?_⟩
    rw [hstore]
    exact Store.hasTakenIn_of_keep hreliable hscannable hkept
  · intro poller hquery
    obtain ⟨y, asked, journal, hanswer, hkept, hstore⟩ := Poller.perform_query hquery
    obtain ⟨x, rfl⟩ := Store.exists_of_keep hkept
    rw [hsource] at hanswer
    refine ⟨x, Vendor.Client.exists_delivery hanswer, ?_⟩
    rw [hstore]
    exact Store.hasTakenIn_of_keep (s := { world.store with journal }) hreliable hscannable hkept

/-! ## A code that is too long -/

theorem Service.fetch_isOk {world : World} {service : Service} {pair : Pair} {x : Observation}
    (hreliable : world.store.IsReliable) (hfree : world.store.locked = false)
    (hscannable : world.store.committed.IsScannable)
    (hwait : Store.waitTooLong service.wait = false)
    (hanswer : world.source world.clock world.asked pair = .ok (x : Sighting)) :
    (world.perform (fetch service pair)).1 = .ok (x : Sighting) := by
  obtain ⟨t, hrun, -⟩ := Store.perform_keep hreliable hfree hwait x
  have hkept : (world.store.perform (Store.keep x service.wait)).1 = .ok ⟨⟩ := by
    rw [hrun]
    exact hscannable.answer nofun
  unfold fetch
  simp only [World.perform_bind, World.perform_ask, hanswer, World.perform_onStore, hkept]
  rfl

/-- An answer about a quote with a code of `n` letters. -/
def lengthyDelivery (n : Nat) : Vendor.Delivery :=
  .answered ⟨200, (Vendor.answer "USD" (Observation.longCode n) "-0.0" "1970-01-01" "UTC").write⟩

theorem readTimeIn_epoch (zones : Time.Zone.Database) (shown : Json) :
    Vendor.Entry.readTimeIn zones "1970-01-01" "UTC" shown = .ok Store.epoch := by
  have hutc : Text.UpperCase.ofText "UTC" = "UTC" := by decide +kernel
  have hzone : Time.Zone.namedIn zones "UTC" = .ok (.fixed 0) := if_pos (congrArg some hutc)
  have hdate : Time.DateText.read? "1970-01-01" = some (⟨1970, 1, 1⟩, 0) := by decide +kernel
  have htime : (Time.Zone.fixed 0).reading? ⟨1970, 1, 1⟩ 0 = some Store.epoch := by decide +kernel
  unfold Vendor.Entry.readTimeIn
  rw [hzone]
  dsimp only [Text.Wide.plain?, Option.bind_some]
  rw [hdate]
  dsimp only
  rw [htime]

theorem takenAt_epoch {base quote : String} {rate : Binary64} {x : Observation}
    (hbase : x.base = base) (hquote : x.quote = quote) (hrate : x.rate = rate)
    (hseconds : x.seconds = 0) : Observation.takenAt base quote rate Store.epoch = .ok x := by
  have hutc : Store.epoch.toUtc? = some Store.epoch := by decide +kernel
  have hwhole : Observation.wholeSeconds Store.epoch = 0 := by decide
  unfold Observation.takenAt Observation.atReading
  rw [hutc]
  dsimp only
  rw [Observation.make_eq_ok_iff.2 ⟨hbase, hquote, hrate, by rw [hwhole, hseconds]; rfl⟩]

theorem readDelivery_lengthy {machine : Vendor.Machine} (hnesting : 2 ≤ machine.nesting) {n : Nat}
    (h : 3 < n) :
    Vendor.Client.readDelivery machine (lengthyDelivery n) =
      .ok (Observation.lengthy n h : Sighting) := by
  have hrate : Number.Numeral.liberal? "-0.0" = some ⟨9223372036854775808⟩ := by decide +kernel
  have hx : Observation.takenAt "USD" (Observation.longCode n) ⟨9223372036854775808⟩ Store.epoch =
      .ok (Observation.lengthy n h) := takenAt_epoch rfl rfl rfl rfl
  unfold lengthyDelivery
  exact Vendor.Client.readDelivery_answer hnesting hrate (readTimeIn_epoch machine.zones) hx

/-- The codes of an answer are taken in as they are, so a vendor that once answers with a code of
four million and one letters stops the store for good. -/
theorem long_code_blocks :
    let x := Observation.lengthy 4000001 (by decide)
    let client : Vendor.Client := ⟨"key", "https://www.alphavantage.co", ⟨0⟩⟩
    let machine : Vendor.Machine := ⟨fun _ => .error .unknown, 1000⟩
    let deliver := fun (_ : Nat) (_ : Vendor.Request) => lengthyDelivery 4000001
    let world : World := ⟨.fresh, client.source machine deliver, [], Store.epoch⟩
    let service : Service := ⟨[], ⟨0⟩⟩
    let pair : Pair := ⟨"USD", "EUR"⟩
    (world.store.IsReliable ∧
      (∃ list, (world.store.perform (Cursor.all .committed).toList).1 = .ok list) ∧
      world.source = client.source machine deliver) ∧
    (world.perform (Service.fetch service pair)).1 = .ok (x : Sighting) ∧
      (world.perform (Service.fetch service pair)).2.store.IsBlocked x
        (.record (.tooLong 4000001)) := by
  intro x client machine deliver world service pair
  have hreliable : world.store.IsReliable := fun _ _ => rfl
  have hscan : ∃ list, (world.store.perform (Cursor.all .committed).toList).1 = .ok list :=
    ⟨[], rfl⟩
  have hsource : world.source = client.source machine deliver := rfl
  have hanswer : world.source world.clock world.asked pair = .ok (x : Sighting) := by
    rw [hsource]
    exact Vendor.Client.source_of_delivery client deliver (by decide +kernel)
      (fun _ => readDelivery_lengthy (by decide) (by decide)) _ _
  have hfetch : (world.perform (Service.fetch service pair)).1 = .ok (x : Sighting) :=
    Service.fetch_isOk hreliable rfl nofun (by decide) hanswer
  obtain ⟨z, hz, -, htaken⟩ :=
    (accepted_answer_kept client machine deliver world pair hreliable hscan hsource).1
      service x hfetch
  obtain rfl : x = z := Sighting.ofObservation_inj hz
  have hlong : x.tooLong? = some 4000001 := Observation.tooLong?_lengthy (by decide) (by decide)
  exact ⟨⟨hreliable, hscan, hsource⟩, hfetch, htaken.blocked 4000001 hlong (by decide)⟩

end RateLedger
