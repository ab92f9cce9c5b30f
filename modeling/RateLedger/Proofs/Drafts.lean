import RateLedger.Proofs.ReadingSteps
import RateLedger.Proofs.Runs

/-!
# The writes of an edit

An edit writes at most two rows of its batch: the entry of an observation, and then the identity row
of the pair, if that has to change. What it writes, and whether it comes to its end, is determined
by the rows of the batch, whatever they are (`Table.draft`). As a step it makes these writes one
after the other; where a call of the engine fails, it stops with the writes made so far, and the
calls that were made tell how many these are (`makes_edit`).
-/

namespace RateLedger

/-- A write to one row. -/
inductive Write
  | put (key value : Bytes)
  | remove (key : Bytes)
  deriving DecidableEq

namespace Write

/-- The key of the row. -/
def key : Write → Bytes
  | .put key _ => key
  | .remove key => key

/-- The table after a write. -/
def applied (table : Table) : Write → Table
  | .put key value => table.insert key value
  | .remove key => table.erase key

/-- The step that makes a write in a batch. -/
def step (b : Nat) : Write → StoreM Unit
  | .put key value => Store.put b key value
  | .remove key => Store.remove b key

theorem lookup_applied (table : Table) (write : Write) {key : Bytes} (h : write.key ≠ key) :
    (write.applied table).lookup key = table.lookup key := by
  cases write with
  | put other value => exact (table.lookup_insert other value key).trans (if_neg (Ne.symm h))
  | remove other => exact (table.lookup_erase other key).trans (if_neg (Ne.symm h))

end Write

/-- What an edit comes to: the writes it makes, in their order, and what it gives after them. -/
structure Draft where
  writes : List Write
  answer : Except StoreFault Unit

/-- The draft with a write before all others. -/
def Draft.after (write : Write) (draft : Draft) : Draft :=
  { draft with writes := write :: draft.writes }

namespace Table

/-- The table after some writes, in their order. -/
def written (table : Table) (writes : List Write) : Table := writes.foldl Write.applied table

theorem written_append (table : Table) (front back : List Write) :
    table.written (front ++ back) = (table.written front).written back :=
  List.foldl_append

/-- Writes to other keys leave what a key holds. -/
theorem lookup_written {table : Table} {writes : List Write} {key : Bytes}
    (h : ∀ write ∈ writes, write.key ≠ key) :
    (table.written writes).lookup key = table.lookup key := by
  induction writes generalizing table with
  | nil => rfl
  | cons write rest ih =>
    have hrest : ((write.applied table).written rest).lookup key =
        (write.applied table).lookup key :=
      ih fun other hother => h other (List.mem_cons_of_mem _ hother)
    exact hrest.trans (write.lookup_applied table (h write List.mem_cons_self))

/-- The record of the newest entry of a pair, unless a row on the way to it cannot be read. -/
def newestRecord (table : Table) (pairId : String) : Except StoreFault (Option Bytes) :=
  let pre := Key.identity pairId
  (table.range pre (Key.upperBound? pre)).foldlM (Store.keepNewest pairId) none

/-- What is left to do for an observation that has its entry: it becomes the newest of its pair
unless a newer one is there. -/
def draftNewest (entered : Table) (x : Observation) : Draft :=
  match entered.lookup (Key.ofPair x) with
  | none => ⟨[.put (Key.ofPair x) x.toRecord], .ok ⟨⟩⟩
  | some value =>
    match readRecord value with
    | .error fault => ⟨[], .error fault⟩
    | .ok current =>
      if current.seconds ≤ x.seconds then ⟨[.put (Key.ofPair x) x.toRecord], .ok ⟨⟩⟩
      else ⟨[], .ok ⟨⟩⟩

/-- What is left to do for a pair whose entry at a second is gone: if it was the newest one, the
newest of the others takes its place. -/
def draftRepair (left : Table) (pairId : String) (seconds : Int) : Draft :=
  match left.lookup (Key.identity pairId) with
  | none => ⟨[], .ok ⟨⟩⟩
  | some value =>
    match readRecord value with
    | .error fault => ⟨[], .error fault⟩
    | .ok current =>
      if (current.seconds : Int) = seconds then
        match left.newestRecord pairId with
        | .error fault => ⟨[], .error fault⟩
        | .ok none => ⟨[.remove (Key.identity pairId)], .ok ⟨⟩⟩
        | .ok (some record) => ⟨[.put (Key.identity pairId) record], .ok ⟨⟩⟩
      else ⟨[], .ok ⟨⟩⟩

/-- What an edit of a table comes to. -/
def draft (table : Table) : Edit → Draft
  | .save x =>
    let entry := Write.put (Key.ofObservation x) x.toRecord
    .after entry ((entry.applied table).draftNewest x)
  | .delete pairId seconds =>
    if Key.fits seconds then
      let entry := Write.remove (Key.timed pairId seconds)
      .after entry ((entry.applied table).draftRepair pairId seconds)
    else ⟨[], .error .secondTooWide⟩

section

variable {table : Table} {pairId : String} {seconds : Int}

/-- At most the identity row of its pair is left to write for an observation. -/
theorem writes_draftNewest (table : Table) (x : Observation) :
    (table.draftNewest x).writes = [] ∨
      (table.draftNewest x).writes = [.put (Key.ofPair x) x.toRecord] := by
  unfold draftNewest
  cases table.lookup (Key.ofPair x) with
  | none => exact .inr rfl
  | some value =>
    dsimp only
    cases readRecord value with
    | error fault => exact .inl rfl
    | ok current =>
      by_cases hle : current.seconds ≤ x.seconds
      · exact .inr (congrArg Draft.writes (if_pos hle))
      · exact .inl (congrArg Draft.writes (if_neg hle))

/-- At most the identity row of its pair is left to write after a deletion. -/
theorem writes_draftRepair (table : Table) (pairId : String) (seconds : Int) :
    (table.draftRepair pairId seconds).writes = [] ∨
      (table.draftRepair pairId seconds).writes = [.remove (Key.identity pairId)] ∨
      ∃ record, table.newestRecord pairId = .ok (some record) ∧
        (table.draftRepair pairId seconds).writes = [.put (Key.identity pairId) record] := by
  unfold draftRepair
  cases table.lookup (Key.identity pairId) with
  | none => exact .inl rfl
  | some value =>
    dsimp only
    cases readRecord value with
    | error fault => exact .inl rfl
    | ok current =>
      by_cases heq : (current.seconds : Int) = seconds
      · simp only [if_pos heq]
        rcases hnewest : table.newestRecord pairId with fault | _ | record
        · exact .inl rfl
        · exact .inr (.inl rfl)
        · exact .inr (.inr ⟨record, rfl, rfl⟩)
      · exact .inl (congrArg Draft.writes (if_neg heq))

end

end Table

/-- The keys that an edit may write to. -/
def Edit.keys : Edit → List Bytes
  | .save x => [Key.ofObservation x, Key.ofPair x]
  | .delete pairId seconds => [Key.timed pairId seconds, Key.identity pairId]

/-- The writes of an edit go to its keys. -/
theorem Table.key_of_draft {table : Table} {change : Edit} {write : Write}
    (h : write ∈ (table.draft change).writes) : write.key ∈ change.keys := by
  cases change with
  | save x =>
    rcases List.mem_cons.1 h with rfl | hrest
    · exact List.mem_cons_self
    · rcases writes_draftNewest _ x with hwrites | hwrites <;> rw [hwrites] at hrest
      · cases hrest
      · rw [List.mem_singleton.1 hrest]
        exact List.mem_cons_of_mem _ List.mem_cons_self
  | delete pairId seconds =>
    dsimp only [draft] at h
    by_cases hfits : Key.fits seconds = true
    · rw [if_pos hfits] at h
      rcases List.mem_cons.1 h with rfl | hrest
      · exact List.mem_cons_self
      · refine List.mem_cons_of_mem _ (List.mem_singleton.2 ?_)
        rcases writes_draftRepair _ pairId seconds with hwrites | hwrites | ⟨record, -, hwrites⟩ <;>
          rw [hwrites] at hrest
        · cases hrest
        · rw [List.mem_singleton.1 hrest]
          rfl
        · rw [List.mem_singleton.1 hrest]
          rfl
    · rw [if_neg hfits] at h
      cases h

/-- An edit keeps a property of tables, however far it comes. -/
def Edit.Keeps (change : Edit) (T : Table → Prop) : Prop :=
  ∀ (table : Table) made, T table → made <+: (table.draft change).writes → T (table.written made)

/-- How many writes were made by the calls of a trace. -/
def landed (events : List EngineEvent) : Nat :=
  events.countP fun event => event.call = .write ∧ event.outage = none

namespace Store

variable {s : Store} {b : Nat}

/-- Some calls belong to the making of so many writes: none of them is a commit. -/
def IsMaking (events : List EngineEvent) (count : Nat) : Prop :=
  landed events = count ∧ ∀ event ∈ events, event.call ≠ .commit

theorem isMaking_of_isReading {events : List EngineEvent}
    (h : ∀ event ∈ events, event.call.isReading = true) : IsMaking events 0 := by
  refine ⟨List.countP_eq_zero.2 fun event hevent => ?_, fun event hevent => ?_⟩
  · have hne := (EngineCall.ne_of_isReading (h event hevent)).1
    simp [hne]
  · exact (EngineCall.ne_of_isReading (h event hevent)).2

theorem IsMaking.append {later earlier : List EngineEvent} {m n : Nat} (hlater : IsMaking later m)
    (hearlier : IsMaking earlier n) : IsMaking (later ++ earlier) (n + m) := by
  refine ⟨?_, fun event hevent => ?_⟩
  · rw [landed, List.countP_append, ← hlater.1, ← hearlier.1, Nat.add_comm]
    rfl
  · rcases List.mem_append.1 hevent with hmem | hmem
    · exact hlater.2 event hmem
    · exact hearlier.2 event hmem

/-- Calls of which none failed have undone nothing. -/
theorem undoes_of_fine {events : List EngineEvent} (h : Fine events) :
    events.any (·.undoes) = false := by
  refine List.any_eq_false.2 fun event hevent => ?_
  unfold EngineEvent.undoes
  rw [h event hevent]
  exact Bool.false_ne_true

theorem undoneBy_of_not (s : Store) {events : List EngineEvent} (view : View)
    (h : events.any (·.undoes) = false) : s.undoneBy events view = s := by
  cases view with
  | committed => rfl
  | batch b => exact if_neg (Bool.eq_false_iff.1 h)

/-- A step makes some writes in an open batch and gives an answer. Where a call of the engine fails,
it has made the first ones of them and fails itself, and the engine may have undone what the batch
has written. -/
structure Makes (s : Store) (b : Nat) (step : StoreM α) (writes : List Write)
    (answer : Except StoreFault α) : Prop where
  run : ∃ events made, IsMaking events made.length ∧
    (s.perform step).2 =
      ((s.withView b ((s.viewOf b).written made)).undoneBy events (.batch b)).withTrace
        (events ++ s.trace) ∧
    ((events.any (·.undoes) = false ∧ made = writes ∧ (s.perform step).1 = answer) ∨
      (made <+: writes ∧ ¬s.IsReliable ∧
        ∃ fault, fault.isOutage = true ∧ (s.perform step).1 = .error fault))

/-- Whatever fails, the writes that are made are the first ones. -/
theorem Makes.made {step : StoreM α} {writes : List Write} {answer : Except StoreFault α}
    (h : s.Makes b step writes answer) :
    ∃ events made, IsMaking events made.length ∧ made <+: writes ∧
      (s.perform step).2 =
        ((s.withView b ((s.viewOf b).written made)).undoneBy events (.batch b)).withTrace
          (events ++ s.trace) := by
  obtain ⟨events, made, hmade, hafter, ⟨-, rfl, -⟩ | ⟨hpre, -⟩⟩ := h.run
  · exact ⟨events, made, hmade, List.prefix_rfl, hafter⟩
  · exact ⟨events, made, hmade, hpre, hafter⟩

theorem Makes.of_reads (h : s.isOpen b = true) {step : StoreM α} {answer : Except StoreFault α}
    (hreads : s.Reads (.batch b) step answer)
    (hrest : Keeps (s.Consulted (.batch b)) (fun _ => True) step) : s.Makes b step [] answer := by
  obtain ⟨events, hevents, hafter⟩ := (hrest s (.refl s _)).1
  refine ⟨events, [], isMaking_of_isReading hevents, ?_, ?_⟩
  · rw [hafter]
    exact congrArg (fun t : Store => (t.undoneBy events (.batch b)).withTrace (events ++ s.trace))
      (withView_viewOf h).symm
  · obtain ⟨calls, ⟨hfine, hrun⟩ | ⟨-, hplan, fault, mid, ⟨hout, -⟩, hrun⟩⟩ := hreads.run s.trace
    · have hperform : s.perform step = _ := hrun
      rw [hperform] at hafter
      have hsame : calls ++ s.trace = events ++ s.trace := congrArg Store.trace hafter
      obtain rfl := List.append_cancel_right hsame
      exact .inl ⟨undoes_of_fine hfine, rfl, congrArg Prod.fst hrun⟩
    · exact .inr ⟨List.nil_prefix, hplan, fault, hout, congrArg Prod.fst hrun⟩

theorem makes_ofExcept (h : s.isOpen b = true) (answer : Except StoreFault α) :
    s.Makes b (ExceptT.mk (pure answer)) [] answer :=
  .of_reads h (Works.ofExcept answer) fun _ ht => ⟨ht, fun _ _ => trivial⟩

theorem Makes.pure (h : s.isOpen b = true) (a : α) : s.Makes b (Pure.pure a) [] (.ok a) :=
  makes_ofExcept h (.ok a)

theorem Makes.throw (h : s.isOpen b = true) (fault : StoreFault) :
    s.Makes b (MonadExcept.throw fault : StoreM α) [] (.error fault) :=
  makes_ofExcept h (.error fault)

theorem perform_bind_of_ok {step : StoreM α} {a : α} (h : (s.perform step).1 = .ok a)
    (next : α → StoreM β) : s.perform (step >>= next) = (s.perform step).2.perform (next a) := by
  rw [perform_bind]
  rcases hrun : s.perform step with ⟨_ | c, t⟩
  · rw [hrun] at h
    cases h
  · rw [hrun] at h
    cases h
    rfl

theorem perform_bind_of_error {step : StoreM α} {fault : StoreFault}
    (h : (s.perform step).1 = .error fault) (next : α → StoreM β) :
    s.perform (step >>= next) = (.error fault, (s.perform step).2) := by
  rw [perform_bind]
  rcases hrun : s.perform step with ⟨other | c, t⟩
  · rw [hrun] at h
    cases h
    rfl
  · rw [hrun] at h
    cases h

/-- A write is made unless the engine refuses it. -/
theorem Makes.call (h : s.isOpen b = true) (activity : Activity) (write : Write) :
    s.Makes b (do
      engineFor b .write (.failed activity)
      modify fun t => t.withView b (write.applied (t.viewOf b))) [write] (.ok ⟨⟩) := by
  constructor
  rw [perform_bind, perform_callFor]
  unfold answer called
  cases hstrike : s.strike? .write with
  | none =>
    exact ⟨[⟨.write, none⟩], [write], ⟨rfl, by simp⟩, rfl, .inl ⟨rfl, rfl, rfl⟩⟩
  | some outage =>
    refine ⟨[⟨.write, some outage⟩], [], ⟨rfl, by simp⟩, ?_,
      .inr ⟨List.nil_prefix, ?_, _, rfl, rfl⟩⟩
    · have hsame := withView_viewOf h
      have hundoes : EngineEvent.undoes ⟨.write, some outage⟩ = (some outage).any (·.undoes) := rfl
      unfold settled undoneBy Table.written
      rw [List.any_cons, List.any_nil, Bool.or_false, hundoes]
      dsimp only [List.foldl_nil]
      rw [hsame]
      split <;> rfl
    · intro hreliable
      rw [hreliable.strike?] at hstrike
      cases hstrike

theorem Makes.write (h : s.isOpen b = true) (write : Write) :
    s.Makes b (write.step b) [write] (.ok ⟨⟩) := by
  cases write with
  | put key value => exact .call h .write (.put key value)
  | remove key => exact .call h .delete (.remove key)

/-- What a step makes, and then what the next one does. -/
theorem Makes.bind (h : s.isOpen b = true) {step : StoreM α} {next : α → StoreM β} {a : α}
    {front back : List Write} {answer : Except StoreFault β} (first : s.Makes b step front (.ok a))
    (second : ∀ t : Store, t.isOpen b = true → t.viewOf b = (s.viewOf b).written front →
      t.Makes b (next a) back answer) : s.Makes b (step >>= next) (front ++ back) answer := by
  obtain ⟨early, made, hmade, hafter, ⟨hkept, rfl, ha⟩ | ⟨hpre, hplan, fault, hout, hfault⟩⟩ :=
    first.run
  · rw [undoneBy_of_not _ _ hkept] at hafter
    have hopen : (s.perform step).2.isOpen b = true := by
      rw [hafter]
      exact (isOpen_withView s b _ b).trans h
    have hview : (s.perform step).2.viewOf b = (s.viewOf b).written made := by
      rw [hafter]
      exact viewOf_withView h _
    obtain ⟨late, more, hmore, hlast, hend⟩ := (second _ hopen hview).run
    have hundone : (late ++ early).any (·.undoes) = late.any (·.undoes) := by
      rw [List.any_append, hkept, Bool.or_false]
    refine ⟨late ++ early, made ++ more, ?_, ?_, ?_⟩
    · rw [List.length_append]
      exact hmore.append hmade
    · rw [perform_bind_of_ok ha, hlast, hview, hafter, undoneBy_withView, undoneBy_withView,
        hundone, Table.written_append, List.append_assoc]
      show ((s.withView b _).withView b _).withTrace (late ++ (early ++ s.trace)) = _
      rw [withView_withView]
      rfl
    · rw [perform_bind_of_ok ha, hundone]
      rcases hend with ⟨hfine, rfl, hend⟩ | ⟨hpre, hplan, hfault⟩
      · exact .inl ⟨hfine, rfl, hend⟩
      · refine .inr ⟨List.prefix_append_right_inj _ |>.2 hpre, ?_, hfault⟩
        rw [hafter] at hplan
        exact hplan
  · refine ⟨early, made, hmade, ?_, .inr ⟨?_, hplan, fault, hout, ?_⟩⟩
    · rw [perform_bind_of_error hfault]
      exact hafter
    · exact hpre.trans (List.prefix_append _ _)
    · rw [perform_bind_of_error hfault]

/-- A step that writes nothing may come first. -/
theorem Makes.bind_quiet (h : s.isOpen b = true) {step : StoreM α} {next : α → StoreM β} {a : α}
    {writes : List Write} {answer : Except StoreFault β} (first : s.Makes b step [] (.ok a))
    (second : ∀ t : Store, t.isOpen b = true → t.viewOf b = s.viewOf b →
      t.Makes b (next a) writes answer) : s.Makes b (step >>= next) writes answer :=
  .bind h first second

/-- What comes after a step that fails is not reached. -/
theorem Makes.bind_error {step : StoreM α} {next : α → StoreM β} {writes : List Write}
    {fault : StoreFault} (first : s.Makes b step writes (.error fault)) :
    s.Makes b (step >>= next) writes (.error fault) := by
  obtain ⟨events, made, hmade, hafter, ⟨hkept, rfl, hfault⟩ | ⟨hpre, hplan, other, hout, hfault⟩⟩ :=
    first.run
  · refine ⟨events, made, hmade, ?_, .inl ⟨hkept, rfl, ?_⟩⟩ <;> rw [perform_bind_of_error hfault]
    exact hafter
  · refine ⟨events, made, hmade, ?_, .inr ⟨hpre, hplan, other, hout, ?_⟩⟩ <;>
      rw [perform_bind_of_error hfault]
    exact hafter

/-! ## Edits -/

theorem makes_checkOpen (h : s.isOpen b = true) : s.Makes b (checkOpen b) [] (.ok ⟨⟩) :=
  .of_reads h (Works.checkOpen h) ((untouched_consulted s _).checkOpen b)

theorem makes_readRow (h : s.isOpen b = true) (key : Bytes) :
    s.Makes b (readRow (.batch b) key) [] (.ok ((s.viewOf b).lookup key)) := by
  have hview : s.CanRead (.batch b) := h
  exact .of_reads h (reads_readRow hview key) ((untouched_consulted s _).readRow key)

theorem makes_newestRecord (h : s.isOpen b = true) (pairId : String) :
    s.Makes b (newestRecord (.batch b) pairId) [] ((s.viewOf b).newestRecord pairId) := by
  have hview : s.CanRead (.batch b) := h
  have hfold := Scan.reads_fold hview (keepNewest pairId)
    (Scan.ofPrefix (Key.identity pairId)) (Nat.zero_lt_succ _) none
  rw [Scan.remaining_ofPrefix] at hfold
  exact .of_reads h hfold ((untouched_consulted s _).newestRecord pairId)

theorem makes_draftNewest (h : s.isOpen b = true) (x : Observation) :
    s.Makes b
      (do
        match ← readRow (.batch b) (Key.ofPair x) with
        | none => put b (Key.ofPair x) x.toRecord
        | some value =>
          let current ← ExceptT.mk (pure (readRecord value))
          if current.seconds ≤ x.seconds then put b (Key.ofPair x) x.toRecord)
      ((s.viewOf b).draftNewest x).writes ((s.viewOf b).draftNewest x).answer := by
  unfold Table.draftNewest
  refine .bind_quiet h (makes_readRow h _) fun t ht _ => ?_
  cases (s.viewOf b).lookup (Key.ofPair x) with
  | none => exact .write ht (.put _ _)
  | some value =>
    dsimp only
    cases readRecord value with
    | error fault => exact (makes_ofExcept ht (.error fault)).bind_error
    | ok current =>
      refine .bind_quiet ht (makes_ofExcept ht (.ok current)) fun u hu _ => ?_
      by_cases hle : current.seconds ≤ x.seconds
      · simp only [if_pos hle]
        exact .write hu (.put _ _)
      · simp only [if_neg hle]
        exact .pure hu _

theorem makes_draftRepair (h : s.isOpen b = true) (pairId : String) (seconds : Int) :
    s.Makes b
      (do
        match ← readRow (.batch b) (Key.identity pairId) with
        | none => return
        | some value =>
          let current ← ExceptT.mk (pure (readRecord value))
          if (current.seconds : Int) = seconds then
            match ← newestRecord (.batch b) pairId with
            | none => remove b (Key.identity pairId)
            | some record => put b (Key.identity pairId) record)
      ((s.viewOf b).draftRepair pairId seconds).writes
      ((s.viewOf b).draftRepair pairId seconds).answer := by
  unfold Table.draftRepair
  refine .bind_quiet h (makes_readRow h _) fun t ht hsame => ?_
  have htable : t.viewOf b = s.viewOf b := hsame
  cases (s.viewOf b).lookup (Key.identity pairId) with
  | none => exact .pure ht _
  | some value =>
    dsimp only
    cases readRecord value with
    | error fault => exact (makes_ofExcept ht (.error fault)).bind_error
    | ok current =>
      refine .bind_quiet ht (makes_ofExcept ht (.ok current)) fun u hu hagain => ?_
      have hsearch := makes_newestRecord hu pairId
      rw [show u.viewOf b = s.viewOf b from hagain.trans htable] at hsearch
      by_cases heq : (current.seconds : Int) = seconds
      · simp only [if_pos heq]
        cases hnewest : (s.viewOf b).newestRecord pairId with
        | error fault =>
          rw [hnewest] at hsearch
          exact hsearch.bind_error
        | ok found =>
          rw [hnewest] at hsearch
          refine .bind_quiet hu hsearch fun v hv _ => ?_
          cases found with
          | none => exact .write hv (.remove _)
          | some record => exact .write hv (.put _ _)
      · simp only [if_neg heq]
        exact .pure hu _

/-- An edit makes the writes of its draft, one after the other, as far as the engine lets it. -/
theorem makes_edit (h : s.isOpen b = true) (change : Edit) :
    s.Makes b (change.step b) ((s.viewOf b).draft change).writes
      ((s.viewOf b).draft change).answer := by
  cases change with
  | save x =>
    refine .bind_quiet h (makes_checkOpen h) fun t ht hview =>
      .bind ht (.write ht (.put _ _)) fun u hu hentered => ?_
    have hrest := makes_draftNewest hu x
    rw [hentered, hview] at hrest
    exact hrest
  | delete pairId seconds =>
    refine .bind_quiet h (makes_checkOpen h) fun t ht hview => ?_
    simp only [Table.draft]
    cases Key.fits seconds with
    | false => exact (Makes.throw ht .secondTooWide).bind_error
    | true =>
      simp only [if_true]
      refine .bind ht (.write ht (.remove _)) fun u hu hleft => ?_
      have hrest := makes_draftRepair hu pairId seconds
      rw [hleft, hview] at hrest
      exact hrest

/-- A batch that is not open refuses an edit. -/
theorem perform_edit_closed (hclosed : s.isOpen b = false) (change : Edit) :
    s.perform (change.step b) = (.error .batchClosed, s) := by
  cases change with
  | save x => exact perform_checkOpen_closed hclosed _
  | delete pairId seconds => exact perform_checkOpen_closed hclosed _

end Store

end RateLedger
