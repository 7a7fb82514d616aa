import QueryPlanner.Value

/-!
# Sort orders

A sort order lists columns by importance, each with a direction. Rows are compared column by column
under the key order; sorting is stable, so rows that compare equal keep their places.

* `SortKey`, `SortOrder` — one column of an order, and an order.
* `SortOrder.remap` — an order after columns were selected.
* `SortOrder.compareRows`, `SortOrder.sort`, `SortOrder.isSorted` — comparing and sorting rows.
-/

namespace QueryPlanner

/-- Whether lesser keys come first or greater ones do. -/
inductive Direction where
  | ascending
  | descending
  deriving DecidableEq, Inhabited

/-- One column of a sort order. -/
structure SortKey where
  column : Nat
  direction : Direction
  deriving DecidableEq, Inhabited

namespace SortKey

/-- A column by which lesser keys come first. -/
def asc (column : Nat) : SortKey := ⟨column, .ascending⟩

/-- A column by which greater keys come first. -/
def desc (column : Nat) : SortKey := ⟨column, .descending⟩

/-- The same key with its column moved to the right. -/
def shift (k : SortKey) (offset : Nat) : SortKey := ⟨k.column + offset, k.direction⟩

/-- A key as reports write it. -/
def toText (k : SortKey) : String :=
  match k.direction with
  | .ascending => s!"#{k.column} asc"
  | .descending => s!"#{k.column} desc"

end SortKey

/-- Columns by importance, each with a direction. -/
abbrev SortOrder := List SortKey

namespace SortOrder

/-- Whether an order begins with all keys of another. -/
def startsWith (order start : SortOrder) : Bool := start.isPrefixOf order

/-- An order after a selection, where column `i` of the result is column `mapping[i]`. It ends
before the first key whose column was not selected; that column is returned too. -/
def remap (mapping : List Nat) : SortOrder → SortOrder × Option Nat
  | [] => ([], none)
  | k :: ks =>
    match mapping.idxOf? k.column with
    | some position => (⟨position, k.direction⟩ :: (remap mapping ks).1, (remap mapping ks).2)
    | none => ([], some k.column)

/-- An order with all columns moved to the right. -/
def shift (order : SortOrder) (offset : Nat) : SortOrder := order.map fun k => k.shift offset

/-- Compares two rows by one key; a column missing from a row compares equal to everything. -/
def compareBy (k : SortKey) (a b : Row) : Ordering :=
  let o :=
    match a[k.column]?, b[k.column]? with
    | some x, some y => x.keyCmp y
    | _, _ => .eq
  match k.direction with
  | .ascending => o
  | .descending => o.swap

/-- Compares two rows by the keys of an order, the first that differs deciding. -/
def compareRows : SortOrder → Row → Row → Ordering
  | [], _, _ => .eq
  | k :: ks, a, b => (compareBy k a b).then (compareRows ks a b)

/-- Sorts rows; rows that compare equal keep their places. -/
def sort (order : SortOrder) (rows : List Row) : List Row :=
  rows.mergeSort fun a b => order.compareRows a b != .gt

/-- Whether no row comes after one that is greater. -/
def isSorted (order : SortOrder) : List Row → Bool
  | a :: b :: rest => order.compareRows a b != .gt && isSorted order (b :: rest)
  | _ => true

/-- An order as reports write it. -/
def toText (order : SortOrder) : String :=
  "[" ++ ", ".intercalate (order.map SortKey.toText) ++ "]"

end SortOrder

end QueryPlanner
