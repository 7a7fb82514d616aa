import QueryPlanner.Expr.Eval
import QueryPlanner.Plan.Index

/-!
# Stores

Where plans read rows from. A store is asked for all rows of an index; plans know nothing else of
it. The store at hand keeps tables in memory, each under its primary index, and a secondary index
reads the rows of its primary one in its own key order.

* `Store` — what a plan needs of a store.
* `Tables` — tables in memory.
* `Tables.toStore` — the store that reads them.
-/

namespace QueryPlanner

/-- Where rows are read from. -/
structure Store where
  /-- All rows of an index, in key order, or why there are none to read. -/
  scan : Index → Except Fault (List Row)

/-- The store that has rows of no index. -/
def Store.empty : Store := ⟨fun index => .error (.noRows index.name)⟩

/-- Rows by the number of their primary index, and the primary index of each secondary one. Newer
entries stand in front of older ones. -/
structure Tables where
  /-- The rows stored under each primary index. -/
  rows : List (Nat × List Row)
  /-- The primary index of each secondary one. -/
  primaries : List (Nat × Nat)
  deriving Inhabited

namespace Tables

/-- No tables. -/
def empty : Tables := ⟨[], []⟩

/-- Stores the rows of a primary index. -/
def insertTable (t : Tables) (primary : Index) (rows : List Row) : Tables :=
  ⟨(primary.id, rows) :: t.rows, t.primaries⟩

/-- Makes an index read the rows of another. -/
def registerSecondary (t : Tables) (secondary primary : Index) : Tables :=
  ⟨t.rows, (secondary.id, primary.id) :: t.primaries⟩

/-- The rows an index reads, in the order they were stored. -/
def table? (t : Tables) (index : Index) : Option (List Row) :=
  t.rows.lookup ((t.primaries.lookup index.id).getD index.id)

/-- All rows of an index, in key order. -/
def scan (t : Tables) (index : Index) : Except Fault (List Row) :=
  match t.table? index with
  | some rows => .ok (index.key.sort rows)
  | none => .error (.noRows index.name)

/-- The store that reads the tables. -/
def toStore (t : Tables) : Store := ⟨t.scan⟩

/-- Tables are read as the store they are. -/
instance : Coe Tables Store := ⟨toStore⟩

end Tables

end QueryPlanner
