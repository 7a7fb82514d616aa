import QueryPlanner.Plan.Header

/-!
# Indexes

A primary index holds the rows of a table by its key. A secondary index gives the rows of a primary
index in another order; one that contains all data has the same row layout.
-/

namespace QueryPlanner

/-- A primary or secondary index. -/
structure Index where
  id : Nat
  name : String
  /-- The layout of the rows that a scan gives. -/
  columns : List Column
  /-- The key, as columns of the layout. -/
  key : SortOrder
  isUnique : Bool
  isPrimary : Bool
  /-- Whether the index stores every column of the row. -/
  containsAllData : Bool
  /-- How many rows are expected, if known. -/
  rowCount : Option Nat
  deriving DecidableEq, Inhabited

namespace Index

/-- A unique primary index. -/
def primary (id : Nat) (name : String) (columns : List Column) (key : SortOrder) : Index :=
  ⟨id, name, columns, key, true, true, true, none⟩

/-- A secondary index over the rows of a primary one. -/
def secondary (id : Nat) (name : String) (of : Index) (key : SortOrder) : Index :=
  ⟨id, name, of.columns, key, false, false, true, of.rowCount⟩

/-- The number of the index, as reports write it. -/
def label (i : Index) : String := s!"idx{i.id}"

/-- The header of a scan: the layout, in key order. -/
def header (i : Index) : Header := ⟨i.columns, i.key⟩

/-- The first key column, which key conditions speak about. -/
def leadingKey? (i : Index) : Option SortKey := i.key.head?

/-- The type of the first key column. -/
def leadingKeyType? (i : Index) : Option ColumnType := do
  return (← i.columns[(← i.leadingKey?).column]?).type

/-- Whether a value of the leading key belongs to at most one row. -/
def isUniqueOnLeadingKey (i : Index) : Bool := i.isUnique && i.key.length == 1

end Index

end QueryPlanner
