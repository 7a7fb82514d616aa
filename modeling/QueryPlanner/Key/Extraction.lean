import QueryPlanner.Key.Condition

/-!
# Key conditions of predicates

What a predicate says about one column, as a condition on the keys in that column. Negation is a
polarity carried down the predicate: under an odd number of negations `and` and `or` change places
and tests are negated. A part that says nothing about the column is widened to every key, so the
condition never excludes a row the predicate keeps.
-/

namespace QueryPlanner

/-- The condition found in a predicate. -/
structure Extraction where
  condition : KeyCondition
  /-- Whether the condition keeps exactly the rows the predicate keeps. -/
  isExact : Bool
  deriving Inhabited

namespace Extraction

/-- Nothing is known about the key. -/
def unconstrained : Extraction := ⟨.always, false⟩

/-- A single test. It stands for the predicate only without parameters: an unbound one has to fail
where the predicate would. -/
def ofTest (test : KeyTest) (negated : Bool) : Extraction :=
  ⟨.test test negated, !test.readsParameter⟩

/-- Whether an expression is the key column. -/
def isKey (key : Nat) : Expr → Bool
  | .column i => i == key
  | _ => false

/-- A comparison of the key with an operand. -/
def ofComparison (op : CompareOp) (operand : Expr) (negated : Bool) : Extraction :=
  match KeyOperand.ofExpr? operand with
  | some k => ofTest (.compare op k) negated
  | none => unconstrained

/-- The condition on column `key` of a predicate, or of its negation. -/
def ofPolar (key : Nat) (ty : ColumnType) : Bool → Expr → Extraction
  | negated, .not e => ofPolar key ty (!negated) e
  | negated, .and l r =>
    let left := ofPolar key ty negated l
    let right := ofPolar key ty negated r
    ⟨if negated then left.condition.either right.condition else left.condition.both right.condition,
      left.isExact && right.isExact⟩
  | negated, .or l r =>
    let left := ofPolar key ty negated l
    let right := ofPolar key ty negated r
    ⟨if negated then left.condition.both right.condition else left.condition.either right.condition,
      left.isExact && right.isExact⟩
  | negated, .literal (.bool b) => ⟨if b != negated then .always else .never, true⟩
  | negated, .column i =>
    if i == key && ty == .bool then ofTest (.compare .eq (.literal (.bool true))) negated
    else unconstrained
  | negated, .compare op l r =>
    if isKey key l then ofComparison op r negated
    else if isKey key r then ofComparison op.swap l negated
    else unconstrained
  | negated, .oneOf e choices =>
    if isKey key e then
      match choices.mapM KeyOperand.ofExpr? with
      | some ks => ofTest (.oneOf ks) negated
      | none => unconstrained
    else unconstrained
  | negated, .isNull e => if isKey key e then ofTest .isNull negated else unconstrained
  | negated, .call .startsWith target argument =>
    if isKey key target then
      match KeyOperand.ofExpr? argument with
      | some k => ofTest (.startsWith k) negated
      | none => unconstrained
    else unconstrained
  | _, _ => unconstrained

/-- The condition on column `key`, of type `ty`, of a predicate. -/
def ofPredicate (key : Nat) (ty : ColumnType) (predicate : Expr) : Extraction :=
  ofPolar key ty false predicate

end Extraction

end QueryPlanner
