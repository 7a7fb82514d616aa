import QueryPlanner.Plan.Basic
import QueryPlanner.Run.Store

/-!
# What operators do to rows

The meaning of each operator as a function on lists of rows. An operator with one input is a
function of its input's rows; one with two inputs gets the rows on the left and, on the right, the
meaning of the right input under any bindings, since a correlated join runs it once for each left
row.

* `Source.run`, `Unary.run`, `Binary.run` — the three kinds of operators.
-/

namespace QueryPlanner

/-! ### Rows one by one -/

/-- The rows that pass a test; the first fault ends it. -/
def keepRows (test : Row → Except Fault Bool) : List Row → Except Fault (List Row)
  | [] => .ok []
  | row :: rest => do
    if ← test row then
      return row :: (← keepRows test rest)
    else
      keepRows test rest

/-- What a function makes of each row; the first fault ends it. -/
def mapRows (f : Row → Except Fault Row) : List Row → Except Fault (List Row)
  | [] => .ok []
  | row :: rest => do
    let first ← f row
    return first :: (← mapRows f rest)

/-- The rows that a function gives for each row, in sequence; the first fault ends it. -/
def spreadRows (f : Row → Except Fault (List Row)) : List Row → Except Fault (List Row)
  | [] => .ok []
  | row :: rest => do
    let first ← f row
    return first ++ (← spreadRows f rest)

/-- The values in several columns of a row. -/
def Row.project (row : Row) : List Nat → Except Fault Row
  | [] => .ok []
  | i :: is => do
    let v ← Row.column row i
    return v :: (← Row.project row is)

/-- The values of calculated columns; none of them sees another. -/
def calculated (b : Bindings) (row : Row) : List Calculation → Except Fault Row
  | [] => .ok []
  | c :: cs => do
    let v ← c.expr.eval row b
    return v :: (← calculated b row cs)

/-- A row with nulls on its right. -/
def Row.padded (row : Row) (width : Nat) : Row := row ++ List.replicate width .null

/-- Rows with their number, from one, on the right. -/
def numbered (rows : List Row) : List Row :=
  rows.zipIdx.map fun r => r.1 ++ [.int64 (Int64.ofNat (r.2 + 1))]

/-- The first of every set of rows with equal keys, after those already seen. -/
def distinctAfter (seen : List Row) : List Row → List Row
  | [] => seen
  | row :: rest =>
    if seen.any fun s => Row.keyEq s row then distinctAfter seen rest
    else distinctAfter (seen ++ [row]) rest

/-- The first of every set of rows with equal keys. -/
def distinctRows (rows : List Row) : List Row := distinctAfter [] rows

/-! ### Groups -/

/-- Rows that share a key. -/
structure Group where
  key : Row
  members : List Row
  deriving Inhabited

/-- Adds a row to the group of its key, or opens one. -/
def Group.add (key row : Row) : List Group → List Group
  | [] => [⟨key, [row]⟩]
  | g :: gs => if Row.keyEq g.key key then ⟨g.key, g.members ++ [row]⟩ :: gs
      else g :: add key row gs

/-- Rows by the values in some columns, in order of first occurrence, after given groups. -/
def Group.collect (columns : List Nat) (groups : List Group) : List Row → Except Fault (List Group)
  | [] => .ok groups
  | row :: rest => do
    let key ← Row.project row columns
    Group.collect columns (Group.add key row groups) rest

/-- The values in a column. -/
def columnOf (column : Nat) : List Row → Except Fault (List Value)
  | [] => .ok []
  | row :: rest => do
    let v ← Row.column row column
    return v :: (← columnOf column rest)

/-- The least value; of equal ones the first. -/
def least (best : Value) : List Value → Value
  | [] => best
  | v :: vs => least (if best.keyCmp v = .gt then v else best) vs

/-- The greatest value; of equal ones the last. -/
def greatest (best : Value) : List Value → Value
  | [] => best
  | v :: vs => greatest (if best.keyCmp v = .gt then best else v) vs

/-- The sum of numbers in floating point, after a partial sum. -/
def sumFloats (sum : Double) : List Value → Except Fault Double
  | [] => .ok sum
  | v :: vs =>
    match v.double? with
    | some x => sumFloats (sum.add x) vs
    | none => .error (.cannotSum v)

/-- The sum of values: exact for integers, in floating point otherwise, and null for none. -/
def sumValues (values : List Value) : Except Fault Value :=
  if values.isEmpty then .ok .null
  else
    match values.mapM Value.int? with
    | some ns => .ok (.int64 (Int64.ofInt (ns.foldl (fun m n => m + n) 0)))
    | none => do return .float (← sumFloats .zero values)

/-- The value of an aggregate over the rows of a group. Nulls are not counted. -/
def Aggregate.compute (a : Aggregate) (rows : List Row) : Except Fault Value :=
  match a.column with
  | some column => do
    let values := (← columnOf column rows).filter fun v => !v.isNull
    match a.kind with
    | .count => return .int64 (Int64.ofNat values.length)
    | .min =>
      match values with
      | [] => return .null
      | v :: vs => return least v vs
    | .max =>
      match values with
      | [] => return .null
      | v :: vs => return greatest v vs
    | .sum => sumValues values
  | none =>
    match a.kind with
    | .count => .ok (.int64 (Int64.ofNat rows.length))
    | _ => .error (.aggregateWithoutColumn a.name)

/-- The values of several aggregates. -/
def Aggregate.computeAll (rows : List Row) : List Aggregate → Except Fault Row
  | [] => .ok []
  | a :: as => do
    let v ← a.compute rows
    return v :: (← computeAll rows as)

/-- One row for each group: its key and its aggregates. -/
def Group.summarize (aggregates : List Aggregate) : List Group → Except Fault (List Row)
  | [] => .ok []
  | g :: gs => do
    let values ← Aggregate.computeAll g.members aggregates
    return (g.key ++ values) :: (← summarize aggregates gs)

/-! ### Leaves -/

/-- The rows of an index whose leading key lies in a set, in key order. -/
def Store.scanKeys (store : Store) (index : Index) (keys : IntervalSet) :
    Except Fault (List Row) :=
  match index.leadingKey? with
  | none => .error (.keylessIndex index.name)
  | some key => do
    let rows ← store.scan index
    return rows.filter fun row => row[key.column]?.any keys.contains

/-- The type of the leading key. -/
def Index.leadingType (index : Index) : Except Fault ColumnType :=
  match index.leadingKeyType? with
  | some ty => .ok ty
  | none => .error (.keylessIndex index.name)

/-- The values of several operands. -/
def KeyOperand.resolveAll (b : Bindings) : List KeyOperand → Except Fault (List Value)
  | [] => .ok []
  | k :: ks => do
    let v ← k.resolve b
    return v :: (← resolveAll b ks)

/-- The rows a leaf reads from a store. -/
def Source.run (store : Store) (b : Bindings) : Source → Except Fault (List Row)
  | .scan index => store.scan index
  | .rows _ given => .ok given
  | .seek index key => do
    let v ← key.resolve b
    let keys :=
      if index.leadingKeyType?.any v.isComparableWith then IntervalSet.points [v] else .empty
    store.scanKeys index keys
  | .range index condition => do
    let ty ← index.leadingType
    store.scanKeys index (condition.keys ty b)
  | .rangeSet index condition => do
    let ty ← index.leadingType
    store.scanKeys index (condition.keys ty b)
  | .multiSeek index keys => do
    let ty ← index.leadingType
    let values ← KeyOperand.resolveAll b keys
    store.scanKeys index (.points (values.filter fun v => v.isComparableWith ty))

/-! ### Operators with one input -/

/-- The rows an operator makes of the rows of its input. -/
def Unary.run (b : Bindings) (rows : List Row) : Unary → Except Fault (List Row)
  | .filter predicate => keepRows (fun row => predicate.holds row b) rows
  | .select columns => mapRows (fun row => Row.project row columns) rows
  | .calculate columns => mapRows (fun row => do return row ++ (← calculated b row columns)) rows
  | .rename _ => .ok rows
  | .sort order => .ok (order.sort rows)
  | .skip count => .ok (rows.drop count)
  | .take count => .ok (rows.take count)
  | .page before count => .ok ((rows.drop before).take count)
  | .number _ => .ok (numbered rows)
  | .distinct => .ok (distinctRows rows)
  | .aggregate groups aggregates => do
    Group.summarize aggregates (← Group.collect groups [] rows)

/-! ### Operators with two inputs -/

/-- Each left row with every right row it matches, in the order of both. In an outer join a left row
without a match is kept, with nulls for a right row of the given width. -/
def joinRows (kind : JoinKind) (width : Nat) (test : Row → Row → Except Fault Bool)
    (left right : List Row) : Except Fault (List Row) :=
  spreadRows (fun l => do
    let matched ← keepRows (test l) right
    if matched.isEmpty && kind == .leftOuter then
      return [Row.padded l width]
    else
      return matched.map fun r => l ++ r) left

/-- Whether two rows agree in pairs of columns; nulls and missing columns agree with nothing. -/
def agreeOn (pairs : List (Nat × Nat)) (left right : Row) : Bool :=
  pairs.all fun p =>
    match left[p.1]?, right[p.2]? with
    | some x, some y => x.compare? y == some .eq
    | _, _ => false

/-- Bindings in which parameters have the values of columns of a row. -/
def Bindings.ofColumns (row : Row) (b : Bindings) : List (Nat × String) → Except Fault Bindings
  | [] => .ok b
  | (column, name) :: rest => do
    let v ← Row.column row column
    ofColumns row (b.insert name v) rest

/-- The rows an operator makes of the rows of its left input and the meaning of its right one, whose
rows have the given width. -/
def Binary.run (b : Bindings) (width : Nat) (left : List Row)
    (right : Bindings → Except Fault (List Row)) : Binary → Except Fault (List Row)
  | .join kind pairs => do
    joinRows kind width (fun l r => .ok (agreeOn pairs l r)) left (← right b)
  | .joinOn kind predicate => do
    joinRows kind width (fun l r => predicate.holds (l ++ r) b) left (← right b)
  | .apply kind bindings =>
    spreadRows (fun l => do
      let matched ← right (← b.ofColumns l bindings)
      if matched.isEmpty && kind == .outer then
        return [Row.padded l width]
      else
        return matched.map fun r => l ++ r) left
  | .union => do return distinctRows (left ++ (← right b))
  | .concat => do return left ++ (← right b)

end QueryPlanner
