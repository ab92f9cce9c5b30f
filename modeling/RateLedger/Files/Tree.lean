import RateLedger.Files.Path
import RateLedger.Text.Quoted

/-!
# Directory trees

A tree holds files and directories, each under the list of names that leads to it from the working
directory, or from the root, which has a name of its own. A path that goes up from the working
directory leads out of the tree.
-/

namespace RateLedger.Files

/-- A place in a tree: the names that lead to it. -/
abbrev Place := List String

/-- What stands at a place. -/
inductive Node
  | directory
  | file (text : String)
  deriving DecidableEq, Repr

/-- Why a tree cannot be changed. -/
inductive TreeError
  /-- A file stands where a directory is needed. -/
  | notDirectory
  | fileExists
  | notFound
  /-- The working directory cannot be removed. -/
  | invalid
  deriving DecidableEq, Repr

/-- The number and the name of an error. -/
def TreeError.text : TreeError → String
  | .notDirectory => "[Errno 20] Not a directory"
  | .fileExists => "[Errno 17] File exists"
  | .notFound => "[Errno 2] No such file or directory"
  | .invalid => "[Errno 22] Invalid argument"

/-- What is said about an error at a path; the path of a file in the way is shown with its kind. -/
def TreeError.message (error : TreeError) (path : Path) : String :=
  let quoted := Text.Quoted.ofText path.text
  error.text ++ ": " ++
    if error = .notDirectory then "PosixPath(" ++ quoted ++ ")" else quoted

/-- Files and directories. -/
structure Tree where
  entries : List (Place × Node)

namespace Tree

/-- The place of the root. -/
def root : Place := ["/"]

/-- Where a path starts. -/
def anchor (path : Path) : Place := if path.anchor = .here then [] else root

/-- What stands at a place; the working directory and the root are directories. -/
def find? (tree : Tree) (place : Place) : Option Node :=
  if place = [] ∨ place = root then some .directory else tree.entries.lookup place

/-- The directory above a directory, if it is known; the root is above itself. -/
def above? (place : Place) : Option Place :=
  if place = [] then none else if place = root then some root else some place.dropLast

/-- Whether a place holds a directory. -/
def isDirectory (tree : Tree) (place : Place) : Bool := tree.find? place == some .directory

/-- The tree with something else at a place. -/
def insert (tree : Tree) (place : Place) (node : Node) : Tree :=
  ⟨(place, node) :: tree.entries.filter (·.1 != place)⟩

/-- The tree without a place and all that is below it. -/
def erase (tree : Tree) (place : Place) : Tree :=
  ⟨tree.entries.filter fun entry => !place.isPrefixOf entry.1⟩

/-- The place that parts of a path lead to from a directory, if it exists. -/
def walk (tree : Tree) (start : Place) : List String → Option Place
  | [] => some start
  | part :: rest =>
    if !tree.isDirectory start then none
    else if part = ".." then
      match above? start with
      | some up => walk tree up rest
      | none => none
    else if (tree.find? (start ++ [part])).isSome then walk tree (start ++ [part]) rest
    else none

/-- The place that a path leads to, if it exists. -/
def locate? (tree : Tree) (path : Path) : Option Place :=
  tree.walk (anchor path) path.parts

/-- The tree with the directories that parts of a path lead through, and the place they lead to. -/
def makeDirectories (tree : Tree) (start : Place) : List String → Except TreeError (Tree × Place)
  | [] => .ok (tree, start)
  | part :: rest =>
    if part = ".." then
      match above? start with
      | some up => makeDirectories tree up rest
      | none => .error .notFound
    else
      match tree.find? (start ++ [part]) with
      | some .directory => makeDirectories tree (start ++ [part]) rest
      | some (.file _) => .error (if rest = [] then .fileExists else .notDirectory)
      | none => makeDirectories (tree.insert (start ++ [part]) .directory) (start ++ [part]) rest

/-- The tree with the directories of a path. -/
def makePath (tree : Tree) (path : Path) : Except TreeError (Tree × Place) :=
  tree.makeDirectories (anchor path) path.parts

/-- The tree with a file at a place, and the directories above it. -/
def addFile (tree : Tree) (place : Place) (text : String) : Tree :=
  match tree.makeDirectories [] place.dropLast with
  | .ok (tree, _) => tree.insert place (.file text)
  | .error _ => tree

/-- Whether a place does not come behind another one: they are compared name by name, and a place
comes before those below it. -/
def inOrder : Place → Place → Bool
  | [], _ => true
  | _ :: _, [] => false
  | a :: before, b :: behind => if a = b then inOrder before behind else a < b

/-- All places in order with what stands there. -/
def toList (tree : Tree) : List (Place × Node) :=
  tree.entries.mergeSort fun a b => inOrder a.1 b.1

end Tree

end RateLedger.Files
