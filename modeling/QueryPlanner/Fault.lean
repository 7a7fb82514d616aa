import QueryPlanner.Value

/-!
# Faults

The reasons for which correcting, rebuilding or running a plan can fail, and their wording.
-/

namespace QueryPlanner

/-- Why a plan cannot be corrected, rebuilt or run. -/
inductive Fault where
  /-- An operator drops a column by which its rows still have to be ordered. -/
  | orderLost (operator : String) (column : Nat)
  | columnOutOfRange (index width : Nat)
  | unboundParameter (name : String)
  /-- An operator is given the wrong number of inputs. -/
  | wrongArity (operator : String) (expected actual : Nat)
  /-- The index has no leading key column. -/
  | keylessIndex (index : String)
  /-- The store holds no rows for the index. -/
  | noRows (index : String)
  /-- Only counting needs no column. -/
  | aggregateWithoutColumn (aggregate : String)
  | cannotSum (value : Value)
  deriving DecidableEq, Inhabited

namespace Fault

/-- The text a fault is reported with. -/
def message : Fault → String
  | .orderLost operator column =>
    s!"{operator} removes column {column} which is still required for ordering"
  | .columnOutOfRange index width => s!"column {index} is out of range for a row of width {width}"
  | .unboundParameter name => s!"parameter '{name}' is not bound"
  | .wrongArity operator expected actual =>
    s!"invalid plan: {operator} expects {expected} sources, got {actual}"
  | .keylessIndex index => s!"invalid plan: index {index} has no key"
  | .noRows index => s!"invalid plan: no rows stored for index {index}"
  | .aggregateWithoutColumn aggregate =>
    s!"invalid plan: aggregate {aggregate} needs a source column"
  | .cannotSum value => s!"evaluation error: cannot sum {value.toText}"

end Fault

end QueryPlanner
