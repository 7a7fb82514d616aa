import QueryPlanner.Plan.Basic

/-!
# What operators do to the order of rows

Each operator has one effect on order. The classification is a function on plans, so that a dialect
can replace it.
-/

namespace QueryPlanner

/-- What an operator does to the order of its input. -/
inductive OrderEffect where
  /-- Gives a new order, whatever the input has. -/
  | sorts
  /-- Gives rows in the order of the input. -/
  | keeps
  /-- Gives rows in no defined order. -/
  | breaks
  /-- Gives rows that depend on the order of the input. -/
  | needs
  deriving DecidableEq, Inhabited

/-- What an effect is called in stored forms. -/
def OrderEffect.name : OrderEffect → String
  | .sorts => "Sorter"
  | .keeps => "PreservesOrder"
  | .breaks => "BreaksOrder"
  | .needs => "OrderSensitive"

/-- A classification of plans by the effect of their outermost operator. -/
abbrev OrderEffects := Plan → OrderEffect

/-- The usual classification. -/
def OrderEffects.standard : OrderEffects
  | .unary (.sort _) _ => .sorts
  | .unary (.skip _) _ => .needs
  | .unary (.take _) _ => .needs
  | .unary (.page _ _) _ => .needs
  | .unary (.number _) _ => .needs
  | .binary .union _ _ => .breaks
  | .binary .concat _ _ => .breaks
  | _ => .keeps

end QueryPlanner
