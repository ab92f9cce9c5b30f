import RateLedger.Store.Basic

/-!
# Scans

A store is read through a view: the committed table, in a session of its own for each read, or what
a batch sees. A range is scanned in pages. Each page is read when a row beyond the last page is
asked for, and starts after the last key of the page before; a page once read does not change, and a
page that is not full is the last one.
-/

namespace RateLedger

/-- From where the store is read. -/
inductive View
  | committed
  | batch (b : Nat)
  deriving DecidableEq, Repr

namespace Store

/-- The table that a view shows. -/
def table (s : Store) : View → Table
  | .committed => s.committed
  | .batch b => s.viewOf b

/-- Asks the table of a view. -/
def query (view : View) (ask : Table → α) : StoreM α := do
  match view with
  | .committed =>
    engine .openSession (.failed .read)
    ensuring
      (do
        engine .read (.failed .read)
        return ask ((← get).table view))
      (engine .closeSession (.failed .read))
  | .batch b =>
    checkOpen b
    engineFor b .read (.failed .batchRead)
    return ask ((← get).table view)

/-- The value of a key. -/
def readRow (view : View) (key : Bytes) : StoreM (Option Bytes) :=
  query view fun table => table.lookup key

end Store

/-- How many rows a page has. -/
def pageSize : Nat := 256

/-- A scan of a range of keys. -/
structure Scan where
  low : Bytes
  high : Option Bytes
  /-- The size of its pages. -/
  size : Nat
  /-- The last key of the last page. -/
  last : Option Bytes
  /-- The rows of the last page that were not given out. -/
  waiting : List Row
  /-- Whether the last page was not full. -/
  ended : Bool

namespace Scan

/-- A scan that has read nothing yet. -/
def ofRange (low : Bytes) (high : Option Bytes) (size : Nat) : Scan :=
  ⟨low, high, size, none, [], false⟩

/-- A scan of the keys that start with `pre`. -/
def ofPrefix (pre : Bytes) : Scan := ofRange pre (Key.upperBound? pre) pageSize

/-- The rows of the next page. -/
def nextPage (scan : Scan) (table : Table) : List Row :=
  table.page scan.low scan.high scan.last scan.size

/-- The scan after a page. -/
def withPage (scan : Scan) (rows : List Row) : Scan :=
  { scan with
    last := (rows.getLast?.map (·.1)).or scan.last
    waiting := rows
    ended := rows.length < scan.size }

/-- Gives out the first waiting row. -/
def pop (scan : Scan) : Option (Row × Scan) :=
  match scan.waiting with
  | [] => none
  | row :: rest => some (row, { scan with waiting := rest })

/-- The next row, reading a page if none waits. -/
def next? (view : View) (scan : Scan) : StoreM (Option (Row × Scan)) := do
  if scan.waiting.isEmpty then
    if scan.ended then return none
    else return (scan.withPage (← Store.query view scan.nextPage)).pop
  else return scan.pop

/-- Steps enough to come to the end of a scan. -/
def steps (scan : Scan) (table : Table) : Nat := scan.waiting.length + table.rows.length + 1

/-- Folds the rows of a scan, one after the other. -/
def foldFrom (view : View) (step : α → Row → Except StoreFault α) :
    (fuel : Nat) → Scan → α → StoreM α
  | 0, _, acc => return acc
  | fuel + 1, scan, acc => do
    match ← scan.next? view with
    | none => return acc
    | some (row, scan) => foldFrom view step fuel scan (← ExceptT.mk (pure (step acc row)))

/-- Folds all rows of a scan. -/
def fold (view : View) (step : α → Row → Except StoreFault α) (scan : Scan) (start : α) :
    StoreM α := do
  foldFrom view step (scan.steps ((← get).table view)) scan start

/-- All rows of a scan. -/
def toList (view : View) (scan : Scan) : StoreM (List Row) :=
  List.reverse <$> scan.fold view (fun rows row => .ok (row :: rows)) []

end Scan

end RateLedger
