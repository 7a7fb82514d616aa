import QueryPlanner.Data.ValueForm
import QueryPlanner.Plan.OrderEffect

/-!
# Parts of plans as plain data

The stored form of sort keys, columns, headers, indexes, computed columns and order effects.
-/

namespace QueryPlanner

namespace SortKey

/-- The directions by their stored names. -/
def directions : List (String × Direction) :=
  [("Ascending", .ascending), ("Descending", .descending)]

/-- Reads the stored form of a sort key. -/
def ofData? (d : Data) : Option SortKey := do
  let [column, direction] ← d.fields? ["column", "direction"] | none
  return ⟨← (← column).nat? 64, ← (← direction).oneOf? directions⟩

/-- The stored form of a sort key. -/
def toData (k : SortKey) : Data :=
  let direction :=
    match k.direction with
    | .ascending => "Ascending"
    | .descending => "Descending"
  .record [("column", .ofNat k.column), ("direction", .text direction)]

end SortKey

namespace Column

/-- Reads the stored form of a column. -/
def ofData? (d : Data) : Option Column := do
  let [name, type, nullable] ← d.fields? ["name", "ty", "nullable"] | none
  return ⟨← (← name).text?, ← ColumnType.ofData? (← type), ← (← nullable).bool?⟩

/-- The stored form of a column. -/
def toData (c : Column) : Data :=
  .record [("name", .text c.name), ("ty", c.type.toData), ("nullable", .bool c.nullable)]

end Column

namespace Header

/-- Reads the stored form of a header. -/
def ofData? (d : Data) : Option Header := do
  let [columns, order] ← d.fields? ["columns", "order"] | none
  return ⟨← (← columns).listOf? Column.ofData?, ← (← order).listOf? SortKey.ofData?⟩

/-- The stored form of a header. -/
def toData (h : Header) : Data :=
  .record [("columns", .ofList Column.toData h.columns), ("order", .ofList SortKey.toData h.order)]

end Header

namespace Index

/-- The fields of an index, in their stored sequence. -/
def fieldNames : List String :=
  ["id", "name", "columns", "key_columns", "unique", "is_primary", "contains_all_data", "row_count"]

/-- Reads the stored form of an index. The number of rows may be left out. -/
def ofData? (d : Data) : Option Index := do
  let [id, name, columns, key, isUnique, isPrimary, containsAllData, rowCount] ←
    d.fields? fieldNames | none
  return {
    id := ← (← id).nat? 32
    name := ← (← name).text?
    columns := ← (← columns).listOf? Column.ofData?
    key := ← (← key).listOf? SortKey.ofData?
    isUnique := ← (← isUnique).bool?
    isPrimary := ← (← isPrimary).bool?
    containsAllData := ← (← containsAllData).bool?
    rowCount := ← Data.optional? (Data.nat? 64) rowCount }

/-- The stored form of an index. -/
def toData (i : Index) : Data :=
  .record (fieldNames.zip
    [.ofNat i.id, .text i.name, .ofList Column.toData i.columns, .ofList SortKey.toData i.key,
      .bool i.isUnique, .bool i.isPrimary, .bool i.containsAllData, .ofOption .ofNat i.rowCount])

end Index

namespace Aggregate

/-- The kinds of aggregates by their stored names. -/
def kinds : List (String × AggregateKind) :=
  [AggregateKind.count, .sum, .min, .max].map fun kind => (kind.name, kind)

/-- Reads the stored form of an aggregate. The column may be left out. -/
def ofData? (d : Data) : Option Aggregate := do
  let [name, kind, column] ← d.fields? ["name", "kind", "column"] | none
  return ⟨← (← name).text?, ← (← kind).oneOf? kinds, ← Data.optional? (Data.nat? 64) column⟩

/-- The stored form of an aggregate. -/
def toData (a : Aggregate) : Data :=
  .record
    [("name", .text a.name), ("kind", .text a.kind.name), ("column", .ofOption .ofNat a.column)]

end Aggregate

namespace Calculation

/-- Reads the stored form of a computed column. -/
def ofData? (d : Data) : Option Calculation := do
  let [name, type, expr] ← d.fields? ["name", "ty", "expr"] | none
  return ⟨← (← name).text?, ← ColumnType.ofData? (← type), ← Expr.ofData? (← expr)⟩

/-- The stored form of a computed column. -/
def toData (c : Calculation) : Data :=
  .record [("name", .text c.name), ("ty", c.type.toData), ("expr", c.expr.toData)]

end Calculation

namespace OrderEffect

/-- Every effect. -/
def all : List OrderEffect := [.sorts, .keeps, .breaks, .needs]

/-- Reads the stored name of an effect. -/
def ofData? : Data → Option OrderEffect := Data.oneOf? (all.map fun effect => (effect.name, effect))

/-- The stored name of an effect. -/
def toData (effect : OrderEffect) : Data := .text effect.name

end OrderEffect

end QueryPlanner
