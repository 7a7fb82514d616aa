import QueryPlanner.Expr.Junction

/-!
# Disjunctive normal form with a budget

A predicate as a disjunction of clauses, each a conjunction of leaves and negated leaves. Expanding
can grow exponentially, so it stops with an error once a step would give more clauses than the
budget allows. Clauses are counted in 64-bit words, so a product stops growing at the largest count.
-/

namespace QueryPlanner

/-- A disjunction of conjunctive clauses. -/
structure Dnf where
  clauses : List (List Expr)
  deriving Inhabited

/-- Expanding would give more clauses than the budget. -/
structure BudgetExceeded where
  budget : Nat
  deriving DecidableEq, Inhabited

/-- The text it is reported with. -/
def BudgetExceeded.message (e : BudgetExceeded) : String :=
  s!"DNF expansion exceeds the budget of {e.budget} clauses"

namespace Dnf

/-- The largest count of clauses. -/
def maxCount : Nat := UInt64.size - 1

/-- Every clause of the left joined with every clause of the right. -/
def product (left right : List (List Expr)) : List (List Expr) :=
  left.flatMap fun l => right.map fun r => l ++ r

/-- The clauses of a conjunction, within a budget. -/
def allOf (budget : Nat) (left right : List (List Expr)) :
    Except BudgetExceeded (List (List Expr)) :=
  if budget < min (left.length * right.length) maxCount then .error ⟨budget⟩
  else .ok (product left right)

/-- The clauses of a disjunction, within a budget. -/
def anyOf (budget : Nat) (left right : List (List Expr)) :
    Except BudgetExceeded (List (List Expr)) :=
  if budget < left.length + right.length then .error ⟨budget⟩ else .ok (left ++ right)

/-- The clauses of a predicate, or of its negation. Negation swaps `and` with `or` on its way to the
leaves. -/
def expand (budget : Nat) : Bool → Expr → Except BudgetExceeded (List (List Expr))
  | negated, .not e => expand budget (!negated) e
  | negated, .and l r => do
    let left ← expand budget negated l
    let right ← expand budget negated r
    if negated then anyOf budget left right else allOf budget left right
  | negated, .or l r => do
    let left ← expand budget negated l
    let right ← expand budget negated r
    if negated then allOf budget left right else anyOf budget left right
  | negated, leaf => .ok [[if negated then .not leaf else leaf]]

/-- The normal form of a predicate, if every step stays within the budget. -/
def normalize (predicate : Expr) (budget : Nat) : Except BudgetExceeded Dnf :=
  return ⟨← expand budget false predicate⟩

/-- The whole normal form as an expression. -/
def toExpr? (d : Dnf) : Option Expr :=
  Expr.disjunction (d.clauses.filterMap Expr.conjunction)

end Dnf

end QueryPlanner
