import QueryPlanner.Access.Cost
import QueryPlanner.Expr.Dnf
import QueryPlanner.Key.Extraction
import QueryPlanner.Plan.Basic

/-!
# Access paths

A way to read the rows of a table that satisfy a predicate: the keys of one index that can hold such
rows, and the parts of the predicate that the keys do not settle. A disjunction can also be read
clause by clause, each through an index of its own.

* `AccessPath.ofConjuncts?` — the path through an index, for the conjuncts of a predicate.
* `AccessPath.toPlan` — the plan that follows a path.
* `AccessChoice` — one path, or one for each clause.
-/

namespace QueryPlanner

/-- Reading the rows of a predicate through an index. -/
structure AccessPath where
  index : Index
  /-- The leading keys read. -/
  condition : KeyCondition
  /-- The conjuncts still to be tested on the rows read. -/
  residual : List Expr
  cost : Cost
  deriving Inhabited

namespace AccessPath

/-- The path through an index for a conjunction, costed under expected bindings. There is none if
the conjunction says nothing about the leading key. -/
def ofConjuncts? (model : CostModel) (expected : Bindings) (conjuncts : List Expr) (index : Index) :
    Option AccessPath := do
  let key ← index.leadingKey?
  let ty ← index.leadingKeyType?
  let extract := Extraction.ofPredicate key.column ty
  let condition := conjuncts.foldl (fun c e => c.both (extract e).condition) KeyCondition.always
  let residual := conjuncts.filter fun e => !(extract e).isExact
  if condition.isAlways then none
  else
    let cost := model index (condition.keys ty expected)
    some ⟨index, condition, residual, if residual.isEmpty then cost else cost.withFilter⟩

/-- The first of the cheapest paths. -/
def cheapest? : List AccessPath → Option AccessPath
  | [] => none
  | p :: rest =>
    match cheapest? rest with
    | none => some p
    | some q => if q.cost.total.before p.cost.total then some q else some p

/-- The cheapest path for a conjunction through one of several indexes. -/
def best? (model : CostModel) (expected : Bindings) (indexes : List Index) (conjuncts : List Expr) :
    Option AccessPath :=
  cheapest? (indexes.filterMap (ofConjuncts? model expected conjuncts))

/-- The leaf that reads the keys of the path. -/
def source (p : AccessPath) : Source :=
  match p.condition.seekKey?, p.condition.pointKeys?, p.index.isUniqueOnLeadingKey with
  | some key, _, true => .seek p.index key
  | _, some keys, _ => .multiSeek p.index keys
  | _, none, _ =>
    if p.condition.isInterval then .range p.index p.condition else .rangeSet p.index p.condition

/-- The plan that follows the path. -/
def toPlan (p : AccessPath) : Plan :=
  match Expr.conjunction p.residual with
  | some predicate => .unary (.filter predicate) (.source p.source)
  | none => .source p.source

end AccessPath

/-- How the rows of a predicate are read. -/
inductive AccessChoice where
  | single (path : AccessPath)
  /-- One path for each clause, the rows of all of them each once. -/
  | union (first : AccessPath) (rest : List AccessPath)
  deriving Inhabited

namespace AccessChoice

/-- Dropping duplicates touches every row once more. -/
def total : AccessChoice → Double
  | .single path => path.cost.total
  | .union first rest =>
    ((first :: rest).foldl (fun c p => c.add p.cost) Cost.zero).withFilter.total

/-- The cheapest path for each clause; none if some clause has no path. -/
def ofClauses? (model : CostModel) (expected : Bindings) (indexes : List Index)
    (clauses : List (List Expr)) : Option AccessChoice :=
  match clauses.mapM (AccessPath.best? model expected indexes) with
  | some (first :: rest) => some (.union first rest)
  | _ => none

/-- The plan that follows the choice. -/
def toPlan : AccessChoice → Plan
  | .single path => path.toPlan
  | .union first rest => rest.foldl (fun p path => .binary .union p path.toPlan) first.toPlan

/-- Whether the rows come in the order of the primary index. -/
def keepsOrder (primary : Index) : AccessChoice → Bool
  | .single path => path.index.id == primary.id
  | .union _ _ => false

end AccessChoice

end QueryPlanner
