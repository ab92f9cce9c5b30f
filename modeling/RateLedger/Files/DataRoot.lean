import RateLedger.Files.Tree

/-!
# The data directory

The store lies in a file under the data directory. Opening the store makes the directories above the
file, and cleaning removes the data directory with all that is in it.
-/

namespace RateLedger.Files

/-- The parts that lead from the data directory to the file of the store. -/
def storeParts : List String := ["db", "oracle.db"]

/-- The path of the file of the store. -/
def storePath (root : Path) : Path := root.down storeParts

/-- The tree in which the store is open. -/
def openStore (tree : Tree) (root : Path) : Except TreeError Tree := do
  let (tree, place) ← tree.makePath (root.down storeParts.dropLast)
  let place := place ++ storeParts.drop 1
  return if (tree.find? place).isSome then tree else tree.insert place (.file "")

/-- What cleaning comes to: the tree after it, and whether there was something to remove. -/
structure Cleaning where
  tree : Tree
  result : Except TreeError Bool

/-- Removes the data directory. A path that ends by going up is gone before its end is removed, and
the working directory stays when it is empty. -/
def clean (tree : Tree) (root : Path) : Cleaning :=
  match tree.locate? root with
  | none => ⟨tree, .ok false⟩
  | some place =>
    if !tree.isDirectory place then ⟨tree, .error .notDirectory⟩
    else
      ⟨tree.erase place,
        if root.parts.getLast? = some ".." then .error .notFound
        else if place = [] then .error .invalid
        else .ok true⟩

end RateLedger.Files
