import QueryPlanner.Expr.Basic

/-!
# Conjunctions and disjunctions

Nested `and` and `or` trees as lists of their parts, and back.
-/

namespace QueryPlanner.Expr

/-- The conjuncts of a nested `and`, from the left. -/
def conjuncts : Expr → List Expr
  | .and l r => l.conjuncts ++ r.conjuncts
  | e => [e]

/-- The disjuncts of a nested `or`, from the left. -/
def disjuncts : Expr → List Expr
  | .or l r => l.disjuncts ++ r.disjuncts
  | e => [e]

/-- The parts joined by `and`, nested to the left; nothing for no parts. -/
def conjunction : List Expr → Option Expr
  | [] => none
  | e :: es => some (es.foldl .and e)

/-- The parts joined by `or`, nested to the left; nothing for no parts. -/
def disjunction : List Expr → Option Expr
  | [] => none
  | e :: es => some (es.foldl .or e)

end QueryPlanner.Expr
