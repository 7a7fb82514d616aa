import QueryPlanner.Key.Condition
import QueryPlanner.Plan.Index

/-!
# Query plans

A plan is a tree of relational operators. Leaves read rows, operators with one input work on rows as
they come, and operators with two inputs combine rows.

* `Source`, `Unary`, `Binary` — the operators with no, one and two inputs.
* `Plan` — plans; `Plan.header` is the header of the rows a plan gives.
* `Plan.withInputs` — the same operator over other inputs.
* `Plan.same` — structural equality, floating point literals compared as numbers.
-/

namespace QueryPlanner

/-- How left rows without a match are treated by a join: dropped, or kept beside nulls. -/
inductive JoinKind where
  | inner
  | leftOuter
  deriving DecidableEq, Inhabited

/-- How rows of the left input without a match are treated: dropped or kept. -/
inductive ApplyKind where
  | cross
  | outer
  deriving DecidableEq, Inhabited

/-- What is computed from the values of a group. -/
inductive AggregateKind where
  | count
  | sum
  | min
  | max
  deriving DecidableEq, Inhabited

/-- A column computed from the rows of a group. -/
structure Aggregate where
  name : String
  kind : AggregateKind
  /-- The column aggregated; a count without one counts rows. -/
  column : Option Nat
  deriving DecidableEq, Inhabited

/-- A column computed from each row. -/
structure Calculation where
  name : String
  type : ColumnType
  expr : Expr
  deriving Inhabited

/-- Leaves of a plan. -/
inductive Source where
  /-- All rows of an index, in key order. -/
  | scan (index : Index)
  /-- Given rows, with the header they are said to have. -/
  | rows (header : Header) (rows : List Row)
  /-- The rows with one value of a unique leading key. -/
  | seek (index : Index) (key : KeyOperand)
  /-- The rows with leading keys in one interval. -/
  | range (index : Index) (condition : KeyCondition)
  /-- The rows with leading keys in a set of intervals. -/
  | rangeSet (index : Index) (condition : KeyCondition)
  /-- The rows with one of several leading keys. -/
  | multiSeek (index : Index) (keys : List KeyOperand)
  deriving Inhabited

/-- Operators with one input. -/
inductive Unary where
  | filter (predicate : Expr)
  /-- The columns at given positions. -/
  | select (columns : List Nat)
  | calculate (columns : List Calculation)
  | rename (name : String)
  | sort (order : SortOrder)
  | skip (count : Nat)
  | take (count : Nat)
  /-- Skipping, then taking, in one step. -/
  | page (skip take : Nat)
  /-- Appends the number of each row, from one. -/
  | number (column : String)
  | distinct
  | aggregate (groups : List Nat) (aggregates : List Aggregate)
  deriving Inhabited

/-- Operators with two inputs. -/
inductive Binary where
  /-- A join on equal columns, one of the left and one of the right input. -/
  | join (kind : JoinKind) (equalities : List (Nat × Nat))
  /-- A join on a predicate over both rows side by side. -/
  | joinOn (kind : JoinKind) (predicate : Expr)
  /-- Runs the right input once for each left row, with columns of it bound to parameters. -/
  | apply (kind : ApplyKind) (bindings : List (Nat × String))
  /-- The rows of both inputs, each once. -/
  | union
  | concat
  deriving Inhabited

/-- A query plan. -/
inductive Plan where
  | source (source : Source)
  | unary (op : Unary) (input : Plan)
  | binary (op : Binary) (left right : Plan)
  deriving Inhabited

/-! ### Names -/

/-- What a kind of join is called in messages and stored forms. -/
def JoinKind.name : JoinKind → String
  | .inner => "Inner"
  | .leftOuter => "LeftOuter"

/-- What a kind of correlated join is called in messages and stored forms. -/
def ApplyKind.name : ApplyKind → String
  | .cross => "Cross"
  | .outer => "Outer"

/-- What an aggregate is called in messages and stored forms. -/
def AggregateKind.name : AggregateKind → String
  | .count => "Count"
  | .sum => "Sum"
  | .min => "Min"
  | .max => "Max"

/-- What a leaf is called in messages. -/
def Source.name : Source → String
  | .scan _ => "IndexScan"
  | .rows _ _ => "Raw"
  | .seek _ _ => "Seek"
  | .range _ _ => "Range"
  | .rangeSet _ _ => "RangeSet"
  | .multiSeek _ _ => "MultiSeek"

/-- What an operator with one input is called in messages. -/
def Unary.name : Unary → String
  | .filter _ => "Filter"
  | .select _ => "Select"
  | .calculate _ => "Calculate"
  | .rename _ => "Alias"
  | .sort _ => "Sort"
  | .skip _ => "Skip"
  | .take _ => "Take"
  | .page _ _ => "Paging"
  | .number _ => "RowNumber"
  | .distinct => "Distinct"
  | .aggregate _ _ => "Aggregate"

/-- What an operator with two inputs is called in messages. -/
def Binary.name : Binary → String
  | .join _ _ => "Join"
  | .joinOn _ _ => "PredicateJoin"
  | .apply _ _ => "Apply"
  | .union => "Union"
  | .concat => "Concat"

/-- The name of a plan's outermost operator. -/
def Plan.name : Plan → String
  | .source s => s.name
  | .unary op _ => op.name
  | .binary op _ _ => op.name

/-! ### Headers -/

/-- The header of the rows a leaf gives: that of its index, or the one given with rows. -/
def Source.header : Source → Header
  | .scan index => index.header
  | .rows header _ => header
  | .seek index _ => index.header
  | .range index _ => index.header
  | .rangeSet index _ => index.header
  | .multiSeek index _ => index.header

/-- The column an aggregate gives over rows with a header. -/
def Aggregate.resultColumn (input : Header) (a : Aggregate) : Column :=
  let type? := (a.column.bind fun i => input.columns[i]?).map Column.type
  match a.kind with
  | .count => ⟨a.name, .int64, false⟩
  | .sum => ⟨a.name, if type? = some .float64 then .float64 else .int64, true⟩
  | .min => ⟨a.name, type?.getD .int64, true⟩
  | .max => ⟨a.name, type?.getD .int64, true⟩

/-- The header of the rows an operator gives over rows with a header. -/
def Unary.header (op : Unary) (input : Header) : Header :=
  match op with
  | .filter _ => input
  | .select columns => input.select columns
  | .calculate columns => input.append (columns.map fun c => ⟨c.name, c.type, true⟩)
  | .rename _ => input
  | .sort order => input.withOrder order
  | .skip _ => input
  | .take _ => input
  | .page _ _ => input
  | .number column => input.append [⟨column, .int64, false⟩]
  | .distinct => input
  | .aggregate groups aggregates =>
    (input.select groups).append (aggregates.map fun a => a.resultColumn input)

/-- The header of joined rows; in an outer join the right columns may be null. -/
def JoinKind.header (kind : JoinKind) (left right : Header) : Header :=
  match kind with
  | .inner => left.join right
  | .leftOuter => left.outerJoin right

/-- The header of rows joined with what was run for each of them. -/
def ApplyKind.header (kind : ApplyKind) (left right : Header) : Header :=
  match kind with
  | .cross => left.join right
  | .outer => left.outerJoin right

/-- The header of the rows an operator gives over rows with two headers. Unions and concatenations
take their columns from the left and promise no order. -/
def Binary.header (op : Binary) (left right : Header) : Header :=
  match op with
  | .join kind _ => kind.header left right
  | .joinOn kind _ => kind.header left right
  | .apply kind _ => kind.header left right
  | .union => .unordered left.columns
  | .concat => .unordered left.columns

/-- The header of the rows a plan gives. -/
def Plan.header : Plan → Header
  | .source s => s.header
  | .unary op input => op.header input.header
  | .binary op left right => op.header left.header right.header

/-! ### Inputs -/

namespace Plan

/-- The inputs of the outermost operator, from the left. -/
def inputs : Plan → List Plan
  | .source _ => []
  | .unary _ input => [input]
  | .binary _ left right => [left, right]

/-- The outermost operator over other inputs, which have to be as many. -/
def withInputs (p : Plan) (inputs : List Plan) : Except Fault Plan :=
  match p, inputs with
  | .source s, [] => .ok (.source s)
  | .unary op _, [input] => .ok (.unary op input)
  | .binary op _ _, [left, right] => .ok (.binary op left right)
  | p, inputs => .error (.wrongArity p.name p.inputs.length inputs.length)

/-- The plan and all plans inside it, outermost first and from the left. -/
def subplans : Plan → List Plan
  | .source s => [.source s]
  | .unary op input => .unary op input :: input.subplans
  | .binary op left right => .binary op left right :: (left.subplans ++ right.subplans)

end Plan

/-! ### Equality -/

/-- Structural equality of computed columns. -/
def Calculation.same (a b : Calculation) : Bool :=
  a.name == b.name && a.type == b.type && a.expr.same b.expr

/-- Structural equality of leaves; floating point values are compared as numbers. -/
def Source.same : Source → Source → Bool
  | .scan i, .scan j => i == j
  | .rows h r, .rows h' r' =>
    h == h' && r.length == r'.length && (r.zip r').all fun p => Row.same p.1 p.2
  | .seek i k, .seek i' k' => i == i' && k.same k'
  | .range i c, .range i' c' => i == i' && c.same c'
  | .rangeSet i c, .rangeSet i' c' => i == i' && c.same c'
  | .multiSeek i ks, .multiSeek i' ks' =>
    i == i' && ks.length == ks'.length && (ks.zip ks').all fun p => p.1.same p.2
  | _, _ => false

/-- Structural equality of operators with one input. -/
def Unary.same : Unary → Unary → Bool
  | .filter p, .filter q => p.same q
  | .select cs, .select ds => cs == ds
  | .calculate cs, .calculate ds =>
    cs.length == ds.length && (cs.zip ds).all fun p => p.1.same p.2
  | .rename a, .rename b => a == b
  | .sort o, .sort o' => o == o'
  | .skip m, .skip n => m == n
  | .take m, .take n => m == n
  | .page s t, .page s' t' => s == s' && t == t'
  | .number a, .number b => a == b
  | .distinct, .distinct => true
  | .aggregate g a, .aggregate g' a' => g == g' && a == a'
  | _, _ => false

/-- Structural equality of operators with two inputs. -/
def Binary.same : Binary → Binary → Bool
  | .join k e, .join k' e' => k == k' && e == e'
  | .joinOn k p, .joinOn k' p' => k == k' && p.same p'
  | .apply k b, .apply k' b' => k == k' && b == b'
  | .union, .union => true
  | .concat, .concat => true
  | _, _ => false

/-- Structural equality; floating point literals are compared as numbers. -/
def Plan.same : Plan → Plan → Bool
  | .source s, .source s' => s.same s'
  | .unary op p, .unary op' p' => op.same op' && p.same p'
  | .binary op l r, .binary op' l' r' => op.same op' && l.same l' && r.same r'
  | _, _ => false

end QueryPlanner
