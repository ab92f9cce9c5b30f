import RateLedger.Bytes
import RateLedger.Observation

/-!
# Keys

All keys of the history start with `e:` and the identifier of a pair. The identity key ends there;
the key of one observation goes on with the eight bytes of its second. Identifiers have no length
in front, so a scan for the keys of one identifier also meets those of longer ones. A prefix is
scanned as the range up to its upper bound, the least byte string above everything that starts with
the prefix.
-/

namespace RateLedger.Key

/-- The first byte of the keys of the history. -/
def root : Bytes := [101]

/-- What separates the root from the identifier. -/
def separator : Bytes := [58]

/-- The key of an identifier below a root. -/
def under (root ident : Bytes) : Bytes := root ++ separator ++ ident

/-- The key of an identifier below a root, and of a number. -/
def underAt (root ident : Bytes) (number : Int) : Bytes :=
  under root ident ++ Bytes.signedWord number

/-- The identity key of a pair. -/
def identity (pairId : String) : Bytes := under root (Bytes.ofText pairId)

/-- The key of a pair at a second. -/
def timed (pairId : String) (seconds : Int) : Bytes :=
  underAt root (Bytes.ofText pairId) seconds

/-- Whether a number fits into the eight bytes of a key. -/
def fits (number : Int) : Bool := Bytes.fitsSigned number

/-- The identity key of the pair of an observation. -/
def ofPair (x : Observation) : Bytes := identity x.pairId

/-- The key of an observation. -/
def ofObservation (x : Observation) : Bytes := timed x.pairId x.seconds

/-- The least byte string above every one that starts with `pre`, if there is one. -/
def upperBound? (pre : Bytes) : Option Bytes :=
  match pre.reverse.dropWhile (· == 255) with
  | [] => none
  | last :: before => some (before.reverse ++ [last + 1])

@[simp] theorem length_timed (pairId : String) (seconds : Int) :
    (timed pairId seconds).length = (identity pairId).length + 8 := by
  simp [timed, underAt, identity]

end RateLedger.Key
