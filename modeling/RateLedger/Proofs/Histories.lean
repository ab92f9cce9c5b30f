import Mathlib.Data.List.Basic
import RateLedger.Proofs.PlainTexts
import RateLedger.Proofs.Records
import RateLedger.Proofs.Rounding
import RateLedger.Proofs.Runs

/-!
# Histories

A history is what a store is meant to keep: under a pair and a second, the observation that was
saved there last, unless it has been deleted since. Nothing is said of keys or of rows. The newest
observation of a pair is determined by the history, and what an edit does to it depends only on how
the edited second compares with the newest one (`isNewest_saved_of_le`, `isNewest_saved_of_lt`,
`isNewest_deleted`).
-/

namespace RateLedger

/-- Two lists in one order with the same members are equal. -/
theorem eq_of_pairwise_of_mem_iff {before : α → α → Prop} (hasymm : ∀ a b, before a b → ¬before b a)
    {list other : List α} (hlist : list.Pairwise before) (hother : other.Pairwise before)
    (hmem : ∀ a, a ∈ list ↔ a ∈ other) : list = other := by
  have nodup : ∀ {as : List α}, as.Pairwise before → as.Nodup := by
    intro as has
    refine has.imp fun {a b} hbefore heq => ?_
    subst heq
    exact hasymm a a hbefore hbefore
  refine List.Perm.eq_of_pairwise (fun a b _ _ hab hba => absurd hba (hasymm a b hab)) hlist
    hother ?_
  exact (List.perm_ext_iff_of_nodup (nodup hlist) (nodup hother)).2 hmem

/-- The last one in a list that is in order is the one that none comes after. -/
theorem getLast?_eq_some_iff_of_pairwise {before : α → α → Prop}
    (hasymm : ∀ a b, before a b → ¬before b a) {list : List α} (h : list.Pairwise before) {a : α} :
    list.getLast? = some a ↔ a ∈ list ∧ ∀ b ∈ list, ¬before a b := by
  rcases List.eq_nil_or_concat' list with rfl | ⟨front, last, rfl⟩
  · simp
  · obtain ⟨-, -, hlast⟩ := List.pairwise_append.1 h
    rw [List.getLast?_concat, Option.some.injEq]
    constructor
    · rintro rfl
      refine ⟨by simp, fun b hb => ?_⟩
      rcases List.mem_append.1 hb with hfront | hself
      · exact hasymm b last (hlast b hfront last (by simp))
      · rw [List.mem_singleton.1 hself]
        exact fun hloop => hasymm last last hloop hloop
    · rintro ⟨hmem, hmax⟩
      rcases List.mem_append.1 hmem with hfront | hself
      · exact absurd (hlast a hfront last (by simp)) (hmax last (by simp))
      · exact (List.mem_singleton.1 hself).symm

/-- An observation is ordinary if its codes are plain and short enough to be read back. -/
structure Observation.IsOrdinary (x : Observation) : Prop where
  base : IsPlain x.base
  quote : IsPlain x.quote
  readable : x.IsReadable

theorem Observation.IsOrdinary.pairId {x : Observation} (h : x.IsOrdinary) : IsPlain x.pairId :=
  (h.base.append (by decide)).append h.quote

/-- A second of the years 1970 to 9999, or of any reading of a clock. -/
def IsSecond (seconds : Int) : Prop :=
  (0 ≤ seconds ∧ seconds ≤ Time.maxSecond) ∨
    ∃ d : Time.DateTime, d.IsNearUtc ∧ d.unixSeconds = seconds

theorem IsSecond.isModerate {seconds : Int} (h : IsSecond seconds) :
    Bytes.IsModerate seconds := by
  rcases h with ⟨hlow, hhigh⟩ | ⟨d, hd, rfl⟩
  · have hle : seconds.toNat ≤ Time.maxSecond := by omega
    have hsecond := Bytes.isModerate_second hle
    rwa [Int.toNat_of_nonneg hlow] at hsecond
  · exact Time.DateTime.isModerate_unixSeconds hd

/-- An edit is ordinary if it saves an ordinary observation, or deletes at a second of a plain pair.
-/
def Edit.IsOrdinary : Edit → Prop
  | .save x => x.IsOrdinary
  | .delete pairId seconds => IsPlain pairId ∧ IsSecond seconds

/-- A call is ordinary if what it edits is. -/
def Call.IsOrdinary : Call → Prop
  | .edit _ change => change.IsOrdinary
  | _ => True

/-- An observation comes before another one: the pairs are ordered by their bytes, and observations
of one pair by their seconds. -/
def Observation.Precedes (x y : Observation) : Prop :=
  Bytes.ofText x.pairId < Bytes.ofText y.pairId ∨ (x.pairId = y.pairId ∧ x.seconds < y.seconds)

theorem Observation.Precedes.asymm {x y : Observation} (h : x.Precedes y) : ¬y.Precedes x := by
  rcases h with hlt | ⟨hpair, hlt⟩
  · rintro (hgt | ⟨hpair, -⟩)
    · exact List.lt_irrefl _ (List.lt_trans hlt hgt)
    · exact List.lt_irrefl _ (hpair ▸ hlt)
  · rintro (hgt | ⟨-, hgt⟩)
    · exact List.lt_irrefl _ (hpair ▸ hgt)
    · exact Nat.lt_asymm hlt hgt

/-- What is kept of a history: the observations, each under its own pair and second. -/
structure History where
  find? : String → Nat → Option Observation
  placed : ∀ {pairId seconds x}, find? pairId seconds = some x →
    x.pairId = pairId ∧ x.seconds = seconds

namespace History

/-- The history without observations. -/
def empty : History := ⟨fun _ _ => none, nofun⟩

/-- The history with an observation in its place. -/
def saved (h : History) (x : Observation) : History where
  find? pairId seconds :=
    if pairId = x.pairId ∧ seconds = x.seconds then some x else h.find? pairId seconds
  placed := by
    intro pairId seconds y hy
    split at hy
    · cases hy
      exact ⟨by simp [*], by simp [*]⟩
    · exact h.placed hy

/-- The history with nothing at a second of a pair. -/
def deleted (h : History) (pairId : String) (seconds : Int) : History where
  find? other second :=
    if other = pairId ∧ (second : Int) = seconds then none else h.find? other second
  placed := by
    intro other second y hy
    split at hy
    · cases hy
    · exact h.placed hy

/-- The history after an edit. -/
def edit (h : History) : Edit → History
  | .save x => h.saved x
  | .delete pairId seconds => h.deleted pairId seconds

/-- The history after some edits, in their order. -/
def edits (h : History) (changes : List Edit) : History := changes.foldl edit h

theorem edits_append_singleton (h : History) (changes : List Edit) (change : Edit) :
    h.edits (changes ++ [change]) = (h.edits changes).edit change := by
  simp [edits]

/-- An observation is in the history. -/
def Has (h : History) (x : Observation) : Prop := h.find? x.pairId x.seconds = some x

/-- No observation of its pair in the history is newer. -/
structure IsNewest (h : History) (x : Observation) : Prop where
  has : h.Has x
  le : ∀ y, h.Has y → y.pairId = x.pairId → y.seconds ≤ x.seconds

/-- A list is the history in the order of pairs and seconds. -/
structure Lists (h : History) (list : List Observation) : Prop where
  mem : ∀ x, x ∈ list ↔ h.Has x
  ordered : list.Pairwise Observation.Precedes

/-- All observations of the history are ordinary. -/
def IsOrdinary (h : History) : Prop := ∀ x, h.Has x → x.IsOrdinary

section

variable {h : History} {x y z : Observation} {pairId : String} {seconds : Int}

theorem find?_eq_some_iff {second : Nat} :
    h.find? pairId second = some x ↔ h.Has x ∧ x.pairId = pairId ∧ x.seconds = second := by
  constructor
  · intro hx
    obtain ⟨rfl, rfl⟩ := h.placed hx
    exact ⟨hx, rfl, rfl⟩
  · rintro ⟨hx, rfl, rfl⟩
    exact hx

theorem Has.eq (hx : h.Has x) (hy : h.Has y) (hpair : x.pairId = y.pairId)
    (hsecond : x.seconds = y.seconds) : x = y := by
  unfold Has at hx hy
  rw [hpair, hsecond, hy] at hx
  exact (Option.some.inj hx).symm

theorem IsNewest.eq (hx : h.IsNewest x) (hy : h.IsNewest y) (hpair : x.pairId = y.pairId) :
    x = y :=
  hx.has.eq hy.has hpair (Nat.le_antisymm (hy.le x hx.has hpair) (hx.le y hy.has hpair.symm))

theorem IsNewest.congr {after : History} (hz : h.IsNewest z) (hafter : after.IsNewest z)
    (hpair : y.pairId = z.pairId) : after.IsNewest y ↔ h.IsNewest y := by
  constructor
  · intro hy
    rw [hy.eq hafter hpair]
    exact hz
  · intro hy
    rw [hy.eq hz hpair]
    exact hafter

/-- A pair with observations has a newest one, as none is later than year 9999. -/
theorem exists_isNewest (hx : h.Has x) : ∃ y, h.IsNewest y ∧ y.pairId = x.pairId := by
  -- On the seconds that are left after that of `x`: it is the newest, or a later one is there.
  induction hleft : Time.maxSecond - x.seconds using Nat.strong_induction_on generalizing x with
  | _ left ih =>
    by_cases hlast : ∀ y, h.Has y → y.pairId = x.pairId → y.seconds ≤ x.seconds
    · exact ⟨x, ⟨hx, hlast⟩, rfl⟩
    · push Not at hlast
      obtain ⟨y, hy, hpair, hlt⟩ := hlast
      have hin := y.inTime
      obtain ⟨z, hz, hzpair⟩ := ih (Time.maxSecond - y.seconds) (by omega) hy rfl
      exact ⟨z, hz, hzpair.trans hpair⟩

/-- A history is listed in one way only. -/
theorem Lists.unique {list other : List Observation} (hlist : h.Lists list)
    (hother : h.Lists other) : list = other := by
  refine eq_of_pairwise_of_mem_iff (fun _ _ => Observation.Precedes.asymm) hlist.ordered
    hother.ordered fun x => ?_
  rw [hlist.mem, hother.mem]

theorem has_saved :
    (h.saved x).Has y ↔
      y = x ∨ (h.Has y ∧ ¬(y.pairId = x.pairId ∧ y.seconds = x.seconds)) := by
  unfold Has saved
  dsimp only
  by_cases hplace : y.pairId = x.pairId ∧ y.seconds = x.seconds
  · rw [if_pos hplace, Option.some.injEq]
    exact ⟨fun heq => .inl heq.symm, fun hy => (hy.resolve_right fun hold => hold.2 hplace).symm⟩
  · rw [if_neg hplace]
    refine ⟨fun hy => .inr ⟨hy, hplace⟩, fun hy => (hy.resolve_left ?_).1⟩
    rintro rfl
    exact hplace ⟨rfl, rfl⟩

theorem has_deleted :
    (h.deleted pairId seconds).Has y ↔
      h.Has y ∧ ¬(y.pairId = pairId ∧ (y.seconds : Int) = seconds) := by
  unfold Has deleted
  dsimp only
  by_cases hplace : y.pairId = pairId ∧ (y.seconds : Int) = seconds
  · simp [hplace]
  · simp [hplace]

theorem IsOrdinary.saved (hh : h.IsOrdinary) (hx : x.IsOrdinary) : (h.saved x).IsOrdinary := by
  intro y hy
  rcases has_saved.1 hy with rfl | ⟨hold, -⟩
  · exact hx
  · exact hh y hold

theorem IsOrdinary.deleted (hh : h.IsOrdinary) (pairId : String) (seconds : Int) :
    (h.deleted pairId seconds).IsOrdinary :=
  fun y hy => hh y (has_deleted.1 hy).1

/-- The newest observation of a pair depends on the observations of the pair only. -/
theorem isNewest_congr {after : History}
    (hsame : ∀ z, z.pairId = y.pairId → (after.Has z ↔ h.Has z)) :
    after.IsNewest y ↔ h.IsNewest y := by
  constructor
  · intro hy
    exact ⟨(hsame y rfl).1 hy.has, fun z hz hzy => hy.le z ((hsame z hzy).2 hz) hzy⟩
  · intro hy
    exact ⟨(hsame y rfl).2 hy.has, fun z hz hzy => hy.le z ((hsame z hzy).1 hz) hzy⟩

theorem isNewest_saved_of_ne (hpair : y.pairId ≠ x.pairId) :
    (h.saved x).IsNewest y ↔ h.IsNewest y := by
  apply isNewest_congr
  intro z hz
  rw [has_saved]
  constructor
  · rintro (rfl | ⟨hold, -⟩)
    · exact absurd hz.symm hpair
    · exact hold
  · intro hold
    exact .inr ⟨hold, fun hplace => hpair (hz ▸ hplace.1)⟩

/-- What is saved is the newest of its pair unless a newer one is there. -/
theorem isNewest_saved_of_le
    (hle : ∀ z, h.IsNewest z → z.pairId = x.pairId → z.seconds ≤ x.seconds) :
    (h.saved x).IsNewest x := by
  refine ⟨has_saved.2 (.inl rfl), fun y hy hpair => ?_⟩
  rcases has_saved.1 hy with rfl | ⟨hold, -⟩
  · exact Nat.le_refl _
  · obtain ⟨z, hz, hzpair⟩ := exists_isNewest hold
    exact Nat.le_trans (hz.le y hold hzpair.symm) (hle z hz (hzpair.trans hpair))

/-- The newest of a pair stays the newest if something older is saved. -/
theorem isNewest_saved_of_lt (hz : h.IsNewest z) (hlt : x.seconds < z.seconds) :
    (h.saved x).IsNewest z := by
  refine ⟨has_saved.2 (.inr ⟨hz.has, fun hplace => ?_⟩), fun y hy hpair => ?_⟩
  · exact Nat.ne_of_gt hlt hplace.2
  · rcases has_saved.1 hy with rfl | ⟨hold, -⟩
    · exact Nat.le_of_lt hlt
    · exact hz.le y hold hpair

/-- A deletion at a second that is not that of the newest one leaves the newest one. -/
theorem isNewest_deleted
    (hne : ∀ z, h.IsNewest z → z.pairId = pairId → (z.seconds : Int) ≠ seconds) :
    (h.deleted pairId seconds).IsNewest y ↔ h.IsNewest y := by
  constructor
  · intro hy
    have hold := (has_deleted.1 hy.has).1
    obtain ⟨z, hz, hpair⟩ := exists_isNewest hold
    have hleft : (h.deleted pairId seconds).Has z :=
      has_deleted.2 ⟨hz.has, fun hplace => hne z hz hplace.1 hplace.2⟩
    have hsecond := Nat.le_antisymm (hy.le z hleft hpair) (hz.le y hold hpair.symm)
    rwa [← hz.has.eq hold hpair hsecond]
  · intro hy
    refine ⟨has_deleted.2 ⟨hy.has, fun hplace => hne y hy hplace.1 hplace.2⟩, fun z hz => ?_⟩
    exact hy.le z (has_deleted.1 hz).1

theorem isNewest_deleted_of_ne (hpair : y.pairId ≠ pairId) :
    (h.deleted pairId seconds).IsNewest y ↔ h.IsNewest y := by
  apply isNewest_congr
  intro z hz
  rw [has_deleted]
  exact and_iff_left fun hplace => hpair (hz ▸ hplace.1)

end

end History

end RateLedger
