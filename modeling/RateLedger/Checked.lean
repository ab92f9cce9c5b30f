import RateLedger.Problem

/-!
# Checked values

Of several values that are checked together all problems are reported, those of the first value
first. Main statement: a function of checked values gives a value exactly when each of them does
(`seq_eq_ok_iff`).
-/

namespace RateLedger

/-- A value that passed its checks, or the problems found. -/
inductive Checked (α : Type)
  | ok (value : α)
  | bad (problems : List Problem)

namespace Checked

/-- The problems found. -/
def problems : Checked α → List Problem
  | .ok _ => []
  | .bad problems => problems

/-- Applies a checked function to a checked value. -/
def apply (f : Checked (α → β)) (x : Checked α) : Checked β :=
  match f, x with
  | .ok f, .ok x => .ok (f x)
  | f, x => .bad (f.problems ++ x.problems)

instance : Applicative Checked where
  pure := .ok
  seq f x := apply f (x ())

theorem seq_eq_ok_iff {f : Checked (α → β)} {x : Checked α} {b : β} :
    (f <*> x) = .ok b ↔ ∃ g a, f = .ok g ∧ x = .ok a ∧ b = g a := by
  show apply f x = .ok b ↔ _
  cases f <;> cases x <;> simp [apply, eq_comm]

/-- A value whose check tells the cause, at the place where it stands. -/
def ofExcept (place : List Place) : Except Cause α → Checked α
  | .ok value => .ok value
  | .error cause => .bad [⟨place, cause⟩]

end Checked

end RateLedger
