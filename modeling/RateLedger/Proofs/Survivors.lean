import RateLedger.Proofs.Ledgers

/-!
# What the rows of a store depend on

A table that holds a history is determined by it, so the rows of a store depend on the observations
that survived and on nothing else: not on the order in which they were saved, not on what was saved
and deleted in between, and not on how the edits were spread over batches. Identity rows are
included, although a save and a deletion arrive at them in different ways. Histories are equal if
they have the same observations (`History.ext_has`), so all of this is said of histories first.
-/

namespace RateLedger

namespace History

variable {h : History} {x y : Observation}

/-- A history is determined by its observations. -/
theorem ext_has {other : History} (hsame : ∀ z, h.Has z ↔ other.Has z) : h = other := by
  have hfind : h.find? = other.find? := by
    funext pairId second
    apply Option.ext
    intro z
    rw [find?_eq_some_iff, find?_eq_some_iff, hsame]
  cases h
  cases other
  cases hfind
  rfl

/-- Observations with different places may be saved in any order. -/
theorem saved_saved_comm (hplace : ¬(x.pairId = y.pairId ∧ x.seconds = y.seconds)) :
    (h.saved x).saved y = (h.saved y).saved x := by
  refine ext_has fun z => ?_
  simp only [has_saved]
  constructor
  · rintro (rfl | ⟨rfl | ⟨hold, hnx⟩, hny⟩)
    · exact .inr ⟨.inl rfl, fun heq => hplace ⟨heq.1.symm, heq.2.symm⟩⟩
    · exact .inl rfl
    · exact .inr ⟨.inr ⟨hold, hny⟩, hnx⟩
  · rintro (rfl | ⟨rfl | ⟨hold, hny⟩, hnx⟩)
    · exact .inr ⟨.inl rfl, hplace⟩
    · exact .inl rfl
    · exact .inr ⟨.inr ⟨hold, hnx⟩, hny⟩

/-- What is saved in a free place and deleted again has never been there. -/
theorem deleted_saved (hfree : ∀ z, h.Has z → ¬(z.pairId = x.pairId ∧ z.seconds = x.seconds)) :
    (h.saved x).deleted x.pairId x.seconds = h := by
  refine ext_has fun z => ?_
  rw [has_deleted, has_saved, Nat.cast_inj]
  constructor
  · rintro ⟨rfl | ⟨hold, -⟩, hplace⟩
    · exact absurd ⟨rfl, rfl⟩ hplace
    · exact hold
  · intro hz
    exact ⟨.inr ⟨hz, hfree z hz⟩, hfree z hz⟩

theorem edits_append (h : History) (front back : List Edit) :
    h.edits (front ++ back) = (h.edits front).edits back :=
  List.foldl_append

end History

/-- Histories that tables hold are the same if the tables are. -/
theorem Table.Holds.history_unique {table : Table} {h other : History} (hholds : table.Holds h)
    (hother : table.Holds other) : h = other :=
  History.ext_has fun x => by rw [← hholds.lists.mem, ← hother.lists.mem]

/-! ## Batches one after the other -/

/-- Some groups of edits, each in a batch of its own that is committed; `next` is the number of the
first one. -/
def batched (next : Nat) : List (List Edit) → List Call
  | [] => []
  | group :: rest =>
    .openBatch ⟨0⟩ :: (group.map (.edit next) ++ .commit next :: batched (next + 1) rest)

theorem isOrdinary_batched {groups : List (List Edit)}
    (h : ∀ change ∈ groups.flatten, change.IsOrdinary) (next : Nat) :
    ∀ call ∈ batched next groups, call.IsOrdinary := by
  induction groups generalizing next with
  | nil => nofun
  | cons group rest ih =>
    rw [List.flatten_cons, List.forall_mem_append] at h
    intro call hcall
    rcases List.mem_cons.1 hcall with rfl | hcall
    · trivial
    rcases List.mem_append.1 hcall with hedit | hcall
    · obtain ⟨change, hchange, rfl⟩ := List.mem_map.1 hedit
      exact h.1 change hchange
    rcases List.mem_cons.1 hcall with rfl | hcall
    · trivial
    · exact ih h.2 (next + 1) call hcall

namespace Ledger

/-- Edits of the open batch are added to its edits. -/
theorem after_edits {l : Ledger} {b : Nat} {changes : List Edit} (h : l.pending = some (b, changes))
    (group : List Edit) : l.after (group.map (.edit b)) = l.withEdits b (changes ++ group) := by
  induction group generalizing l changes with
  | nil =>
    rw [List.append_nil]
    unfold withEdits
    rw [← h]
    rfl
  | cons change rest ih =>
    have hcall : l.call (.edit b change) = l.withEdits b (changes ++ [change]) := by
      unfold call
      dsimp only
      rw [editsOf?_eq_some_iff.2 h]
    calc l.after ((change :: rest).map (.edit b))
        = (l.withEdits b (changes ++ [change])).after (rest.map (.edit b)) := by
          rw [← hcall]
          rfl
      _ = (l.withEdits b (changes ++ [change])).withEdits b ((changes ++ [change]) ++ rest) :=
          ih (pending_withEdits _ _ _)
      _ = l.withEdits b (changes ++ change :: rest) := by
          rw [List.append_assoc]
          rfl

/-- Batches one after the other make all their edits, however these are divided among them. -/
theorem after_batched {l : Ledger} (h : l.pending = none) (groups : List (List Edit)) :
    l.after (batched l.opened groups) =
      ⟨l.committed.edits groups.flatten, none, l.opened + groups.length⟩ := by
  induction groups generalizing l with
  | nil =>
    show l = ⟨l.committed, none, l.opened⟩
    rw [← h]
  | cons group rest ih =>
    have hopen : l.call (.openBatch ⟨0⟩) = l.withOpened := by
      have hwait : Store.waitTooLong ⟨0⟩ = false := by decide
      unfold call
      dsimp only
      rw [hwait, h]
      rfl
    have hcommit : (l.withOpened.withEdits l.opened group).call (.commit l.opened) =
        ⟨l.committed.edits group, none, l.opened + 1⟩ := by
      unfold call
      dsimp only
      rw [editsOf?_withEdits]
      rfl
    have hedits := after_edits (pending_withOpened l) group
    unfold after at hedits ih ⊢
    rw [batched, List.foldl_cons, hopen, List.foldl_append, hedits, List.nil_append,
      List.foldl_cons, hcommit, ih rfl, List.flatten_cons, History.edits_append, List.length_cons]
    simp only [Nat.add_assoc, Nat.add_comm 1]

end Ledger

namespace Store

/-- The committed rows after some edits, which were divided among batches in any way, are those of
the history after the edits. -/
theorem Mirrors.holds_batched {s : Store} {l : Ledger} (h : s.Mirrors l) (hfree : s.locked = false)
    {groups : List (List Edit)} (hgroups : ∀ change ∈ groups.flatten, change.IsOrdinary) :
    (s.after (batched s.batches.length groups)).committed.Holds
      (l.committed.edits groups.flatten) := by
  have hafter := h.after (isOrdinary_batched hgroups s.batches.length)
  rw [h.opened, Ledger.after_batched (h.pending_of_free hfree)] at hafter
  rw [h.opened]
  exact hafter.committed

/-- Views that can be read show the same observations exactly if they show the same rows. -/
theorem Mirrors.table_eq_iff {s t : Store} {l r : Ledger} (hs : s.Mirrors l) (ht : t.Mirrors r)
    {view other : View} (hview : s.CanRead view) (hother : t.CanRead other) :
    s.table view = t.table other ↔
      (s.perform (Cursor.all view).toList).1 = (t.perform (Cursor.all other).toList).1 := by
  obtain ⟨h, hhistory⟩ := hs.exists_history hview
  obtain ⟨k, khistory⟩ := ht.exists_history hother
  obtain ⟨list, hscan, hlists⟩ := hs.scan hhistory
  obtain ⟨shown, kscan, klists⟩ := ht.scan khistory
  have hholds := (hs.table hhistory).2
  have kholds := (ht.table khistory).2
  rw [hscan, kscan, Except.ok.injEq]
  constructor
  · intro heq
    rw [heq] at hholds
    obtain rfl := hholds.history_unique kholds
    exact hlists.unique klists
  · rintro rfl
    obtain rfl : h = k := History.ext_has fun x => by rw [← hlists.mem, ← klists.mem]
    exact hholds.unique kholds

/-- The rows of a store depend on the observations that survived, not on how it came to them. After
any two ordinary runs: what two views show, of the committed rows or of the open batch, has the same
rows exactly if it has the same observations, and the committed rows are the same exactly if the two
ledgers have the same observations. In particular, with no batch open: the same edits leave the same
rows however they are divided among batches; two saves in different places may change their order;
and a save in a free place with the deletion of it leaves the rows as if neither had been made. -/
theorem rows_of_survivors (calls other : List Call) (hcalls : ∀ call ∈ calls, call.IsOrdinary)
    (hother : ∀ call ∈ other, call.IsOrdinary) :
    let s := fresh.after calls
    let t := fresh.after other
    let kept := (Ledger.fresh.after calls).committed
    let rows := fun groups => (s.after (batched s.batches.length groups)).committed
    (∀ view view', s.CanRead view → t.CanRead view' →
      (s.table view = t.table view' ↔
        (s.perform (Cursor.all view).toList).1 = (t.perform (Cursor.all view').toList).1)) ∧
    (s.committed = t.committed ↔ ∀ x, kept.Has x ↔ (Ledger.fresh.after other).committed.Has x) ∧
    (s.locked = false → ∀ groups groups' : List (List Edit),
      (∀ change ∈ groups.flatten, change.IsOrdinary) →
      (∀ change ∈ groups'.flatten, change.IsOrdinary) →
      (groups.flatten = groups'.flatten → rows groups = rows groups') ∧
      (∀ front back x y, ¬(x.pairId = y.pairId ∧ x.seconds = y.seconds) →
        groups.flatten = front ++ [.save x, .save y] ++ back →
        groups'.flatten = front ++ [.save y, .save x] ++ back → rows groups = rows groups') ∧
      ∀ front back x, (∀ z, (kept.edits front).Has z →
          ¬(z.pairId = x.pairId ∧ z.seconds = x.seconds)) →
        groups.flatten = front ++ [.save x, .delete x.pairId x.seconds] ++ back →
        groups'.flatten = front ++ back → rows groups = rows groups') := by
  intro s t kept rows
  have hs : s.Mirrors (Ledger.fresh.after calls) := mirrors_after hcalls
  have ht : t.Mirrors (Ledger.fresh.after other) := mirrors_after hother
  refine ⟨fun view view' => hs.table_eq_iff ht, ⟨fun heq => ?_, fun hsame => ?_⟩,
    fun hfree groups groups' hgroups hgroups' => ?_⟩
  · have hcommitted := hs.committed
    rw [heq] at hcommitted
    intro x
    rw [← hcommitted.history_unique ht.committed]
  · have hkept : kept = (Ledger.fresh.after other).committed := History.ext_has hsame
    have hcommitted : s.committed.Holds kept := hs.committed
    rw [hkept] at hcommitted
    exact hcommitted.unique ht.committed
  · have hrows : kept.edits groups.flatten = kept.edits groups'.flatten →
        rows groups = rows groups' := by
      intro heq
      have hholds := hs.holds_batched hfree hgroups
      rw [heq] at hholds
      exact hholds.unique (hs.holds_batched hfree hgroups')
    refine ⟨fun heq => hrows (by rw [heq]), ?_, ?_⟩
    · intro front back x y hplace hfirst hsecond
      apply hrows
      rw [hfirst, hsecond, History.edits_append, History.edits_append, History.edits_append,
        History.edits_append]
      exact congrArg (History.edits · back) (History.saved_saved_comm hplace)
    · intro front back x hplace hfirst hsecond
      apply hrows
      rw [hfirst, hsecond, History.edits_append, History.edits_append, History.edits_append]
      exact congrArg (History.edits · back) (History.deleted_saved hplace)

/-- What `outOfOrder` leaves, saved in order and in a batch for each observation; a batch that is
discarded stands between them. -/
def inOrder : List Call :=
  [.openBatch ⟨0⟩, .edit 0 (.save early), .commit 0, .openBatch ⟨0⟩, .edit 1 (.save late),
    .discard 1, .openBatch ⟨0⟩, .edit 2 (.save longer), .commit 2]

theorem rows_of_inOrder :
    (∀ call ∈ outOfOrder, call.IsOrdinary) ∧ (∀ call ∈ inOrder, call.IsOrdinary) ∧
    (fresh.after outOfOrder).committed = (fresh.after inOrder).committed := by
  have hinOrder : ∀ call ∈ inOrder, call.IsOrdinary := by
    have hsaved : ∀ x, .edit 0 (.save x) ∈ outOfOrder → x.IsOrdinary :=
      fun x hx => isOrdinary_outOfOrder _ hx
    intro call hcall
    simp only [inOrder, List.mem_cons, List.not_mem_nil, or_false] at hcall
    rcases hcall with rfl | rfl | rfl | rfl | rfl | rfl | rfl | rfl | rfl
    · trivial
    · exact hsaved early (by simp [outOfOrder])
    · trivial
    · trivial
    · exact hsaved late (by simp [outOfOrder])
    · trivial
    · trivial
    · exact hsaved longer (by simp [outOfOrder])
    · trivial
  have hkept : (Ledger.fresh.after inOrder).committed.Lists [early, longer] := by
    refine ⟨fun x => ?_, List.pairwise_pair.2 (.inl (by decide))⟩
    show _ ↔ ((History.empty.saved early).saved longer).Has x
    rw [History.has_saved, History.has_saved]
    constructor
    · intro hx
      rcases List.mem_pair.1 hx with rfl | rfl
      · exact .inr ⟨.inl rfl, by decide⟩
      · exact .inl rfl
    · rintro (rfl | ⟨rfl | ⟨hnone, -⟩, -⟩)
      · simp
      · simp
      · cases hnone
  obtain ⟨-, hrows, -⟩ := rows_of_survivors outOfOrder inOrder isOrdinary_outOfOrder hinOrder
  refine ⟨isOrdinary_outOfOrder, hinOrder, hrows.2 fun x => ?_⟩
  rw [← lists_outOfOrder.mem, hkept.mem]

end Store

end RateLedger
