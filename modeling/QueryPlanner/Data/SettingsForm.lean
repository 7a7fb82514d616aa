import QueryPlanner.Data.Basic
import QueryPlanner.Pipeline

/-!
# Settings as plain data

The stored form of the settings of plan preparation.
-/

namespace QueryPlanner

namespace PagingSupport

/-- Reads the stored form of what a dialect has. -/
def ofData? (d : Data) : Option PagingSupport := do
  let [take, skip] ← d.fields? ["take_supported", "skip_supported"] | none
  return ⟨← (← take).bool?, ← (← skip).bool?⟩

/-- The stored form of what a dialect has. -/
def toData (s : PagingSupport) : Data :=
  .record [("take_supported", .bool s.take), ("skip_supported", .bool s.skip)]

end PagingSupport

namespace SelectionSettings

/-- The fields of the settings of index selection, in their stored sequence. -/
def fieldNames : List String :=
  ["dnf_clause_budget", "index_cache_capacity", "secondary_seek_penalty", "default_row_count"]

/-- Reads the stored form of the settings of index selection. -/
def ofData? (d : Data) : Option SelectionSettings := do
  let [budget, capacity, penalty, rows] ← d.fields? fieldNames | none
  return ⟨← (← budget).nat? 64, ← (← capacity).nat? 64, ← (← penalty).real?, ← (← rows).nat? 64⟩

/-- The stored form of the settings of index selection. -/
def toData (s : SelectionSettings) : Data :=
  .record (fieldNames.zip
    [.ofNat s.clauseBudget, .ofNat s.cacheCapacity, .real s.seekPenalty, .ofNat s.defaultRowCount])

end SelectionSettings

namespace PipelineSettings

/-- The fields of the settings of all steps, in their stored sequence. -/
def fieldNames : List String :=
  ["capabilities", "optimizer", "correct_ordering", "rewrite_paging", "select_indexes"]

/-- Reads the stored form of the settings of all steps. -/
def ofData? (d : Data) : Option PipelineSettings := do
  let [paging, selection, order, collapse, select] ← d.fields? fieldNames | none
  return ⟨← PagingSupport.ofData? (← paging), ← SelectionSettings.ofData? (← selection),
    ← (← order).bool?, ← (← collapse).bool?, ← (← select).bool?⟩

/-- The stored form of the settings of all steps. -/
def toData (s : PipelineSettings) : Data :=
  .record (fieldNames.zip
    [s.paging.toData, s.selection.toData, .bool s.correctsOrder, .bool s.collapsesPaging,
      .bool s.selectsIndexes])

end PipelineSettings

end QueryPlanner
