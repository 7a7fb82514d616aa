import QueryPlanner.Data.Basic
import QueryPlanner.Expr.Eval

/-!
# Values and expressions as plain data

The stored form of values, column types, expressions and bindings.
-/

namespace QueryPlanner

namespace ColumnType

/-- Reads the stored name of a column type. -/
def ofData? : Data → Option ColumnType := Data.oneOf? (all.map fun ty => (ty.name, ty))

/-- The stored name of a column type. -/
def toData (ty : ColumnType) : Data := .text ty.name

end ColumnType

namespace Value

/-- Reads the stored form of a value. Integers have to fit their width. -/
def ofData? (d : Data) : Option Value := do
  match ← d.alternative? with
  | ("Null", none) => return .null
  | ("Null", some .null) => return .null
  | ("Bool", some content) => return .bool (← content.bool?)
  | ("Int32", some content) =>
    return .int32 (.ofInt (← content.int? Int32.minValue.toInt Int32.maxValue.toInt))
  | ("Int64", some content) =>
    return .int64 (.ofInt (← content.int? Int64.minValue.toInt Int64.maxValue.toInt))
  | ("Float64", some content) => return .float (← content.real?)
  | ("String", some content) => return .text (← content.text?)
  | ("Timestamp", some content) =>
    return .timestamp (.ofInt (← content.int? Int64.minValue.toInt Int64.maxValue.toInt))
  | _ => none

/-- The stored form of a value. A number that is not finite has none and is written as null. -/
def toData : Value → Data
  | .null => .text "Null"
  | .bool b => .tagged "Bool" (.bool b)
  | .int32 n => .tagged "Int32" (.int n.toInt)
  | .int64 n => .tagged "Int64" (.int n.toInt)
  | .float x => .tagged "Float64" (if x.isFinite then .real x else .null)
  | .text s => .tagged "String" (.text s)
  | .timestamp n => .tagged "Timestamp" (.int n.toInt)

end Value

namespace CompareOp

/-- The comparisons by their stored names. -/
def table : List (String × CompareOp) :=
  [("Eq", .eq), ("Ne", .ne), ("Lt", .lt), ("Le", .le), ("Gt", .gt), ("Ge", .ge)]

/-- Reads the stored name of a comparison. -/
def ofData? : Data → Option CompareOp := Data.oneOf? table

/-- The stored name of a comparison. -/
def toData (op : CompareOp) : Data :=
  .text <|
    match op with
    | .eq => "Eq"
    | .ne => "Ne"
    | .lt => "Lt"
    | .le => "Le"
    | .gt => "Gt"
    | .ge => "Ge"

end CompareOp

namespace TextMethod

/-- The tests of texts by their stored names. -/
def table : List (String × TextMethod) :=
  [("StartsWith", .startsWith), ("EndsWith", .endsWith), ("Contains", .contains)]

/-- Reads the stored name of a test of texts. -/
def ofData? : Data → Option TextMethod := Data.oneOf? table

/-- The stored name of a test of texts. -/
def toData (method : TextMethod) : Data :=
  .text <|
    match method with
    | .startsWith => "StartsWith"
    | .endsWith => "EndsWith"
    | .contains => "Contains"

end TextMethod

namespace Expr

/-- An expression in data of at most some depth. -/
def readWithin : Nat → Data → Option Expr
  | 0, _ => none
  | depth + 1, d => do
    let operand := readWithin depth
    let (name, content) ← d.alternative?
    let content ← content
    match name with
    | "Column" => return .column (← content.nat? 64)
    | "Literal" => return .literal (← Value.ofData? content)
    | "Parameter" => return .parameter (← content.text?)
    | "Compare" =>
      let [op, left, right] ← content.namedFields? ["op", "left", "right"] | none
      return .compare (← CompareOp.ofData? (← op)) (← operand (← left)) (← operand (← right))
    | "And" =>
      let [left, right] ← content.list? | none
      return .and (← operand left) (← operand right)
    | "Or" =>
      let [left, right] ← content.list? | none
      return .or (← operand left) (← operand right)
    | "Not" => return .not (← operand content)
    | "In" =>
      let [item, choices] ← content.namedFields? ["expr", "values"] | none
      return .oneOf (← operand (← item)) (← (← choices).listOf? operand)
    | "IsNull" => return .isNull (← operand content)
    | "Call" =>
      let [method, target, argument] ← content.namedFields? ["method", "target", "argument"] | none
      return .call (← TextMethod.ofData? (← method)) (← operand (← target)) (← operand (← argument))
    | "Conditional" =>
      let [test, whenTrue, whenFalse] ← content.namedFields? ["test", "if_true", "if_false"] | none
      return .conditional (← operand (← test)) (← operand (← whenTrue)) (← operand (← whenFalse))
    | _ => none

/-- Reads the stored form of an expression. None is nested deeper than its data. -/
def ofData? (d : Data) : Option Expr := readWithin d.depth d

mutual

/-- The stored form of an expression. -/
def toData : Expr → Data
  | .column i => .tagged "Column" (.ofNat i)
  | .literal v => .tagged "Literal" v.toData
  | .parameter name => .tagged "Parameter" (.text name)
  | .compare op l r =>
    .tagged "Compare" (.record [("op", op.toData), ("left", l.toData), ("right", r.toData)])
  | .and l r => .tagged "And" (.list [l.toData, r.toData])
  | .or l r => .tagged "Or" (.list [l.toData, r.toData])
  | .not e => .tagged "Not" e.toData
  | .oneOf e choices =>
    .tagged "In" (.record [("expr", e.toData), ("values", .list (allToData choices))])
  | .isNull e => .tagged "IsNull" e.toData
  | .call method target argument =>
    .tagged "Call" (.record
      [("method", method.toData), ("target", target.toData), ("argument", argument.toData)])
  | .conditional test whenTrue whenFalse =>
    .tagged "Conditional" (.record
      [("test", test.toData), ("if_true", whenTrue.toData), ("if_false", whenFalse.toData)])

/-- Several expressions, each as data. -/
def allToData : List Expr → List Data
  | [] => []
  | e :: es => e.toData :: allToData es

end

end Expr

namespace Bindings

/-- Reads the stored form of bindings. -/
def ofData? (d : Data) : Option Bindings := do
  let [entries] ← d.fields? ["values"] | none
  return ⟨← (← entries).mapOf? Value.ofData?⟩

/-- The stored form of bindings. -/
def toData (b : Bindings) : Data := .record [("values", .ofMap Value.toData b.entries)]

end Bindings

end QueryPlanner
