import RateLedger.Proofs.Edits
import RateLedger.Proofs.Invariants
import RateLedger.Proofs.Runs
import RateLedger.Store.Retention

/-!
# No row is ever corrupted

Identifiers of pairs are not kept apart from what follows them, so the keys of different pairs can
be equal: a row can be overwritten by the record of another pair, and deleted under the name of
another pair. What survives all of this is that a row is sound, the record of some observation under
one of that observation's own two keys. Every call keeps it, whatever the engine does and however
calls are mixed, and sound rows are all that scans, edits and the pruning need to be able to read.
-/

namespace RateLedger

theorem forall_mem_modify {P : α → Prop} {list : List α} {f : α → α} (b : Nat)
    (h : ∀ a ∈ list, P a) (hf : ∀ a ∈ list, P (f a)) : ∀ a ∈ list.modify b f, P a := by
  intro a ha
  obtain ⟨i, hi⟩ := List.mem_iff_getElem?.1 ha
  rw [List.getElem?_modify] at hi
  obtain ⟨old, hold, rfl⟩ := Option.map_eq_some_iff.1 hi
  have hmem : old ∈ list := List.mem_iff_getElem?.2 ⟨i, hold⟩
  by_cases hb : b = i
  · simpa [hb] using hf old hmem
  · simpa [hb] using h old hmem

namespace Store

/-- A store is sound if its committed table and the tables of all batches are. -/
structure IsSound (s : Store) : Prop where
  committed : s.committed.IsSound
  batches : ∀ batch ∈ s.batches, batch.view.IsSound

theorem isSound_fresh (plan : FaultPlan) : ({ fresh with plan } : Store).IsSound :=
  ⟨nofun, nofun⟩

theorem IsSound.viewOf {s : Store} (h : s.IsSound) (b : Nat) : (s.viewOf b).IsSound := by
  unfold Store.viewOf
  cases hbatch : s.batches[b]? with
  | none => exact nofun
  | some batch => exact h.batches batch (List.mem_of_getElem? hbatch)

theorem IsSound.table {s : Store} (h : s.IsSound) (view : View) : (s.table view).IsSound := by
  cases view with
  | committed => exact h.committed
  | batch b => exact h.viewOf b

theorem IsSound.withTrace {s : Store} (h : s.IsSound) (trace : List EngineEvent) :
    (s.withTrace trace).IsSound :=
  ⟨h.committed, h.batches⟩

theorem IsSound.withView {s : Store} (h : s.IsSound) (b : Nat) {view : Table}
    (hview : view.IsSound) : (s.withView b view).IsSound :=
  ⟨h.committed, forall_mem_modify b h.batches fun _ _ => hview⟩

theorem IsSound.withClosed {s : Store} (h : s.IsSound) (b : Nat) : (s.withClosed b).IsSound :=
  ⟨h.committed, forall_mem_modify b h.batches h.batches⟩

/-- A step keeps a store sound, and meets no row that it cannot read. -/
abbrev StaysSound (step : StoreM α) : Prop :=
  Keeps IsSound (fun fault => fault.isCorruption = false) step

theorem staysSound_engine {call : EngineCall} {wrap : String → StoreFault}
    (h : ∀ cause, (wrap cause).isCorruption = false) : StaysSound (engine call wrap) :=
  Keeps.engine (fun _ trace hs => hs.withTrace trace) h

theorem staysSound_checkOpen (b : Nat) : StaysSound (checkOpen b) := by
  refine Keeps.get_bind fun s => ?_
  cases s.isOpen b with
  | true => exact Keeps.pure _
  | false => exact Keeps.throw rfl

theorem staysSound_release : StaysSound release := by
  refine Keeps.get_bind fun s => ?_
  cases s.locked with
  | true => exact Keeps.modify fun _ hs => ⟨hs.committed, hs.batches⟩
  | false => exact Keeps.throw_bind rfl

theorem staysSound_note (level : Level) (speaker text : String) :
    StaysSound (note level speaker text) :=
  Keeps.modify fun _ hs => ⟨hs.committed, hs.batches⟩

theorem staysSound_acquire (wait : Binary64) : StaysSound (acquire wait) := by
  intro s hs
  unfold LeadsTo
  rw [perform_acquire]
  by_cases hwait : waitTooLong wait = true
  · rw [if_pos hwait]
    exact ⟨hs, fun _ h => by cases h; rfl⟩
  · rw [if_neg hwait]
    by_cases hlocked : s.locked = true
    · rw [if_pos hlocked]
      exact ⟨hs, fun _ h => by cases h; rfl⟩
    · rw [if_neg hlocked]
      exact ⟨⟨hs.committed, hs.batches⟩, nofun⟩

theorem staysSound_openBatch (wait : Binary64) : StaysSound (openBatch wait) := by
  refine Keeps.bind (staysSound_acquire wait) fun _ => Keeps.bind ?_ fun _ => ?_
  · exact Keeps.onFault (staysSound_engine fun _ => rfl) fun _ => staysSound_release
  · refine Keeps.modifyGet fun s hs => ⟨hs.committed, fun batch hbatch => ?_⟩
    rcases List.mem_append.1 hbatch with hold | hnew
    · exact hs.batches batch hold
    · rw [List.mem_singleton.1 hnew]
      exact hs.committed

theorem staysSound_close (b : Nat) : StaysSound (close b) :=
  Keeps.bind (Keeps.modify fun _ hs => hs.withClosed b) fun _ =>
    Keeps.ensuring (staysSound_engine fun _ => rfl) staysSound_release

theorem staysSound_rollback : StaysSound rollback := staysSound_engine fun _ => rfl

theorem staysSound_commit (b : Nat) : StaysSound (commit b) := by
  refine Keeps.bind (staysSound_checkOpen b) fun _ =>
    Keeps.ensuring (Keeps.onFault ?_ fun fault => ?_) (staysSound_close b)
  · refine Keeps.bind (staysSound_engine fun _ => rfl) fun _ => ?_
    exact Keeps.modify fun _ hs => ⟨hs.viewOf b, hs.batches⟩
  · cases fault.isBackend with
    | true => exact Keeps.bind (staysSound_note _ _ _) fun _ => staysSound_rollback
    | false => exact Keeps.pure _

theorem staysSound_discard (b : Nat) : StaysSound (discard b) :=
  Keeps.bind (staysSound_checkOpen b) fun _ =>
    Keeps.ensuring staysSound_rollback (staysSound_close b)

theorem staysSound_leave (b : Nat) : StaysSound (leave b) := by
  refine Keeps.get_bind fun s => ?_
  cases s.isOpen b with
  | true => exact staysSound_discard b
  | false => exact Keeps.pure _

theorem staysSound_withBatch (wait : Binary64) {body : Nat → StoreM α}
    (h : ∀ b, StaysSound (body b)) : StaysSound (withBatch wait body) :=
  Keeps.bind (staysSound_openBatch wait) fun b => Keeps.ensuring (h b) (staysSound_leave b)

section

variable {s : Store}

theorem IsSound.leadsTo_of_edits {b : Nat} {step : StoreM Unit} {after : Table} (hs : s.IsSound)
    (hedits : s.Edits b step after) (hafter : after.IsSound) :
    s.LeadsTo IsSound (fun fault => fault.isCorruption = false) step := by
  refine hedits.leadsTo (fun _ trace ht => ht.withTrace trace) (hs.withView b hafter) nofun ?_
  rintro fault mid ⟨hout, left, hleft, rfl⟩
  exact ⟨StoreFault.isCorruption_of_isOutage hout, hs.withView b hleft⟩

theorem IsSound.mayLeave (hs : s.IsSound) {view : View} {mid : Store} (h : s.MayLeave view mid) :
    mid.IsSound := by
  cases view with
  | committed => exact h ▸ hs
  | batch b =>
    rcases h with rfl | rfl
    · exact hs
    · exact hs.withView b hs.committed

theorem IsSound.leadsTo_of_reads {view : View} {read : StoreM α} {answer : Except StoreFault α}
    (hs : s.IsSound) (hread : s.Reads view read answer)
    (hanswer : ∀ fault, answer = .error fault → fault.isCorruption = false) :
    s.LeadsTo IsSound (fun fault => fault.isCorruption = false) read := by
  refine hread.leadsTo (fun _ trace ht => ht.withTrace trace) hs hanswer ?_
  rintro fault mid ⟨hout, hmid⟩
  exact ⟨StoreFault.isCorruption_of_isOutage hout, hs.mayLeave hmid⟩

end

theorem staysSound_save (b : Nat) {x : Observation} (hx : x.IsReadable) :
    StaysSound (save b x) := by
  intro s hs
  cases h : s.isOpen b with
  | false =>
    have hread : s.Reads (.batch b) (save b x) (.error .batchClosed) :=
      (Works.checkOpen_closed h).bind_error
    exact hs.leadsTo_of_reads hread fun _ h => by cases h; rfl
  | true =>
    have hshows : s.Shows b (s.viewOf b) := ⟨h, rfl, hs.viewOf b, hs.committed⟩
    exact hs.leadsTo_of_edits (hshows.edits_save hx) (hshows.sound.saved hx)

theorem staysSound_delete (b : Nat) (pairId : String) (seconds : Int) :
    StaysSound (delete b pairId seconds) := by
  intro s hs
  cases h : s.isOpen b with
  | false =>
    have hread : s.Reads (.batch b) (delete b pairId seconds) (.error .batchClosed) :=
      (Works.checkOpen_closed h).bind_error
    exact hs.leadsTo_of_reads hread fun _ h => by cases h; rfl
  | true =>
    have hshows : s.Shows b (s.viewOf b) := ⟨h, rfl, hs.viewOf b, hs.committed⟩
    cases hfits : Key.fits seconds with
    | true =>
      exact hs.leadsTo_of_edits (hshows.edits_delete pairId hfits)
        (hshows.sound.deleted pairId seconds)
    | false =>
      have hread : s.Reads (.batch b) (delete b pairId seconds) (.error .secondTooWide) := by
        unfold delete
        rw [hfits]
        exact Works.bind (Works.checkOpen h) (Works.throw _).bind_error
      exact hs.leadsTo_of_reads hread fun _ h => by cases h; rfl

/-- No request to a new reader meets a row that it cannot read. -/
theorem staysSound_pull (view : View) (pre : Bytes) (wanted : Option Nat) :
    StaysSound (Cursor.settled ((Cursor.ofPrefix view pre).pull wanted)) := by
  intro s hs
  have hopen : s.CanRead view →
      s.LeadsTo IsSound (fun fault => fault.isCorruption = false)
        (Cursor.settled ((Cursor.ofPrefix view pre).pull wanted)) := by
    intro hview
    obtain ⟨out, hout⟩ := Cursor.readRows_isOk_of_isSound
      ((hs.table view).range pre (Key.upperBound? pre)) wanted []
    refine hs.leadsTo_of_reads (Cursor.reads_pull_ofPrefix hview pre wanted) fun _ h => ?_
    rw [hout] at h
    cases h
  cases view with
  | committed => exact hopen trivial
  | batch b =>
    cases h : s.isOpen b with
    | true => exact hopen h
    | false =>
      refine hs.leadsTo_of_reads (Cursor.reads_pull_closed h pre wanted) fun fault hfault => ?_
      split at hfault
      · cases hfault
      · cases hfault
        rfl

theorem staysSound_toList (view : View) (pre : Bytes) :
    StaysSound (Cursor.ofPrefix view pre).toList := by
  rw [Cursor.toList_eq]
  exact Keeps.bind (staysSound_pull view pre none) fun _ => Keeps.pure _

/-- With a cutoff that does not know its distance from UTC, one observation is one too many. -/
theorem olderThan_of_isNone {cutoff : Time.DateTime} (h : cutoff.offset.isSome = false) (b : Nat) :
    olderThan b cutoff = Cursor.settled ((Cursor.all (.batch b)).pull (some 1)) >>= fun found =>
      match found.2 with
      | .full => throw .mixedClocks
      | _ => pure [] := by
  funext s
  unfold olderThan
  rw [h]
  show s.perform (_ >>= _) = s.perform (_ >>= _)
  rw [perform_bind, perform_bind, Cursor.perform_request, Cursor.perform_settled]
  obtain ⟨⟨items, ending, after⟩, t⟩ := ((Cursor.all (.batch b)).pull (some 1)).run s
  cases ending <;> rfl

theorem staysSound_olderThan (b : Nat) (cutoff : Time.DateTime) :
    StaysSound (olderThan b cutoff) := by
  cases h : cutoff.offset.isSome with
  | true =>
    unfold olderThan
    rw [h]
    exact Keeps.bind (staysSound_toList (.batch b) Key.root) fun _ => Keeps.pure _
  | false =>
    rw [olderThan_of_isNone h]
    refine Keeps.bind (staysSound_pull (.batch b) Key.root (some 1)) fun found => ?_
    cases found.2 with
    | full => exact Keeps.throw rfl
    | exhausted => exact Keeps.pure _
    | failed fault => exact Keeps.pure _

theorem staysSound_prune (cutoff : Time.DateTime) (wait : Binary64) :
    StaysSound (prune cutoff wait) := by
  refine Keeps.bind (staysSound_withBatch wait fun b => ?_) fun _ =>
    Keeps.bind (staysSound_note _ _ _) fun _ => Keeps.pure _
  refine Keeps.bind (staysSound_olderThan b cutoff) fun stale => Keeps.bind ?_ fun _ =>
    Keeps.bind (staysSound_commit b) fun _ => Keeps.pure _
  exact Keeps.forM fun x _ => staysSound_delete b x.pairId x.seconds

/-- A call of a run keeps a store sound if what it saves can be read back. -/
theorem staysSound_call {call : Call}
    (h : ∀ b x, call = .edit b (.save x) → x.IsReadable) : StaysSound call.step := by
  cases call with
  | openBatch wait => exact Keeps.bind (staysSound_openBatch wait) fun _ => Keeps.pure _
  | edit b change =>
    cases change with
    | save x => exact staysSound_save b (h b x rfl)
    | delete pairId seconds => exact staysSound_delete b pairId seconds
  | commit b => exact staysSound_commit b
  | discard b => exact staysSound_discard b

theorem isSound_after (plan : FaultPlan) {calls : List Call}
    (h : ∀ b x, .edit b (.save x) ∈ calls → x.IsReadable) :
    (({ fresh with plan } : Store).after calls).IsSound := by
  refine after_induction (isSound_fresh plan) fun call hcall t ht => ?_
  exact (staysSound_call (fun b x hx => h b x (hx ▸ hcall)) t ht).1

/-- After any calls on a store, whatever its engine does and also where rows of different pairs met
under one key: every row is the record of an observation under one of that observation's two keys,
and no scan, no edit and no pruning, on whatever part of the store, finds stored bytes corrupted. -/
theorem never_corrupted (plan : FaultPlan) (calls : List Call)
    (h : ∀ b x, .edit b (.save x) ∈ calls → x.IsReadable) :
    let s := ({ fresh with plan } : Store).after calls
    (∀ view, ∀ row ∈ (s.table view).rows, ∃ x, Record.decode row.2 = .ok x ∧
      (row.1 = Key.timed x.pairId x.seconds ∨ row.1 = Key.identity x.pairId)) ∧
    (∀ view wanted fault, ((Cursor.all view).pull wanted |>.run s).1.ending = .failed fault →
      fault.isCorruption = false) ∧
    (∀ view text wanted fault,
      ((Cursor.ofText view text).pull wanted |>.run s).1.ending = .failed fault →
      fault.isCorruption = false) ∧
    (∀ b x fault, x.IsReadable → (s.perform (save b x)).1 = .error fault →
      fault.isCorruption = false) ∧
    (∀ b pairId seconds fault, (s.perform (delete b pairId seconds)).1 = .error fault →
      fault.isCorruption = false) ∧
    (∀ cutoff wait fault, (s.perform (prune cutoff wait)).1 = .error fault →
      fault.isCorruption = false) := by
  intro s
  have hs : s.IsSound := isSound_after plan h
  have hpull : ∀ view pre wanted fault,
      ((Cursor.ofPrefix view pre).pull wanted |>.run s).1.ending = .failed fault →
      fault.isCorruption = false := by
    intro view pre wanted fault hending
    refine (staysSound_pull view pre wanted s hs).2 fault ?_
    rw [Cursor.perform_settled]
    simp only [Cursor.settle, hending]
  refine ⟨fun view => hs.table view, fun view => hpull view Key.root,
    fun view text => hpull view (Key.identity text), ?_, ?_, ?_⟩
  · intro b x fault hx
    exact (staysSound_save b hx s hs).2 fault
  · intro b pairId seconds
    exact (staysSound_delete b pairId seconds s hs).2
  · intro cutoff wait
    exact (staysSound_prune cutoff wait s hs).2

/-- Observations of two pairs whose keys are equal: the bytes of the first one's second end the
identifier of the second one's pair. -/
def meeting : List Call :=
  [.openBatch ⟨0⟩, .edit 0 (.save lettered), .edit 0 (.save foreign), .commit 0]

example : Key.ofObservation lettered = Key.identity foreign.pairId := by
  decide

theorem never_corrupted_meeting :
    (∀ b x, .edit b (.save x) ∈ meeting → x.IsReadable) ∧
    (∀ row ∈ ((fresh.after meeting).table .committed).rows, ∃ x, Record.decode row.2 = .ok x ∧
      (row.1 = Key.timed x.pairId x.seconds ∨ row.1 = Key.identity x.pairId)) ∧
    ∀ wanted fault,
      ((Cursor.all .committed).pull wanted |>.run (fresh.after meeting)).1.ending = .failed fault →
      fault.isCorruption = false := by
  have h : ∀ b x, .edit b (.save x) ∈ meeting → x.IsReadable := by
    intro b x hmem
    simp only [meeting, List.mem_cons, List.not_mem_nil, Call.edit.injEq, Edit.save.injEq,
      reduceCtorEq, false_or, or_false] at hmem
    obtain ⟨-, rfl⟩ | ⟨-, rfl⟩ := hmem
    · exact ⟨by decide, by decide⟩
    · exact ⟨by decide, by decide⟩
  obtain ⟨hrows, hscans, -⟩ := never_corrupted fresh.plan meeting h
  exact ⟨h, hrows .committed, hscans .committed⟩

end Store

end RateLedger
