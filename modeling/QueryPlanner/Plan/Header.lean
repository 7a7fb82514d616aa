import QueryPlanner.Plan.SortOrder

/-!
# Headers

The columns that the rows of a plan have, and the order the rows come in.
-/

namespace QueryPlanner

/-- A column of a header. -/
structure Column where
  name : String
  type : ColumnType
  nullable : Bool
  deriving DecidableEq, Inhabited

/-- The columns of rows and the order they come in. -/
structure Header where
  columns : List Column
  order : SortOrder
  deriving DecidableEq, Inhabited

namespace Header

/-- A header that promises no order. -/
def unordered (columns : List Column) : Header := ⟨columns, []⟩

/-- The number of columns. -/
def width (h : Header) : Nat := h.columns.length

/-- The same columns in another order of rows. -/
def withOrder (h : Header) (order : SortOrder) : Header := ⟨h.columns, order⟩

/-- The position of the first column with a name. -/
def indexOf? (h : Header) (name : String) : Option Nat := h.columns.findIdx? fun c => c.name == name

/-- The header of selected columns. Positions out of range are left out, and the order ends before
the first key whose column is not selected. -/
def select (h : Header) (columns : List Nat) : Header :=
  ⟨columns.filterMap fun i => h.columns[i]?, (h.order.remap columns).1⟩

/-- Further columns on the right; the order stays. -/
def append (h : Header) (extra : List Column) : Header := ⟨h.columns ++ extra, h.order⟩

/-- Two headers side by side; the order of the right one follows that of the left one. -/
def join (left right : Header) : Header :=
  ⟨left.columns ++ right.columns, left.order ++ right.order.shift left.width⟩

/-- Two headers side by side, where the columns of the right one may be null. -/
def outerJoin (left right : Header) : Header :=
  left.join ⟨right.columns.map fun c => ⟨c.name, c.type, true⟩, right.order⟩

end Header

end QueryPlanner
