import QueryPlanner.Numeric.Shortest
import QueryPlanner.Text.Quoted

/-!
# Values

The values that rows, literals and parameters carry. Two comparisons are defined on them: the total
*key order* of indexes and sorts, and the partial comparison of predicates, which has no answer when
a side is null or the classes differ.

* `Value.keyCmp` — the key order: by class, null lowest; integers exactly, and anything with a
  floating point number by the total order of those.
* `Value.compare?` — the comparison of predicates, which is `keyCmp` where it is defined.
* `Value.same` — structural equality, floating point numbers compared as numbers.
* `Row`, `Row.keyEq` — rows, and their equality under the key order.
-/

namespace QueryPlanner

/-- A value of a row, a literal or a parameter. -/
inductive Value where
  | null
  | bool (b : Bool)
  | int32 (n : Int32)
  | int64 (n : Int64)
  | float (x : Double)
  | text (s : String)
  | timestamp (micros : Int64)
  deriving DecidableEq, Inhabited

/-- The declared type of a column. -/
inductive ColumnType where
  | bool
  | int32
  | int64
  | float64
  | text
  | timestamp
  deriving DecidableEq, Inhabited

/-- Comparison class: predicates compare only values of one class. -/
inductive ValueClass where
  | null
  | bool
  | numeric
  | text
  | timestamp
  deriving DecidableEq, Inhabited

/-- Position of a class in the key order, null lowest. -/
def ValueClass.rank : ValueClass → Nat
  | .null => 0
  | .bool => 1
  | .numeric => 2
  | .text => 3
  | .timestamp => 4

/-- What a class is called in messages. -/
def ValueClass.name : ValueClass → String
  | .null => "Null"
  | .bool => "Bool"
  | .numeric => "Numeric"
  | .text => "String"
  | .timestamp => "Timestamp"

namespace ColumnType

/-- What a column type is called in messages and stored forms. -/
def name : ColumnType → String
  | .bool => "Bool"
  | .int32 => "Int32"
  | .int64 => "Int64"
  | .float64 => "Float64"
  | .text => "String"
  | .timestamp => "Timestamp"

/-- Every column type. -/
def all : List ColumnType := [.bool, .int32, .int64, .float64, .text, .timestamp]

/-- The class of the values a column of this type holds. -/
def cls : ColumnType → ValueClass
  | .bool => .bool
  | .int32 | .int64 | .float64 => .numeric
  | .text => .text
  | .timestamp => .timestamp

end ColumnType

namespace Value

/-- Whether a value is the null that stands for a missing one. -/
def isNull : Value → Bool
  | .null => true
  | _ => false

/-- Only the value `true` satisfies a predicate. -/
def isTrue : Value → Bool
  | .bool b => b
  | _ => false

/-- The truth value of a Boolean. -/
def bool? : Value → Option Bool
  | .bool b => some b
  | _ => none

/-- The number of an integer value, of either width. -/
def int? : Value → Option Int
  | .int32 n => some n.toInt
  | .int64 n => some n.toInt
  | _ => none

/-- The number of a numeric value, integers widened. -/
def double? : Value → Option Double
  | .float x => some x
  | .int32 n => some (.ofInt n.toInt)
  | .int64 n => some (.ofInt n.toInt)
  | _ => none

/-- The text of a text value. -/
def text? : Value → Option String
  | .text s => some s
  | _ => none

/-- The class of a value; numbers of all types are of one class. -/
def cls : Value → ValueClass
  | .null => .null
  | .bool _ => .bool
  | .int32 _ | .int64 _ | .float _ => .numeric
  | .text _ => .text
  | .timestamp _ => .timestamp

/-- Whether a value may be compared with the values of a column. -/
def isComparableWith (v : Value) (ty : ColumnType) : Bool :=
  !v.isNull && v.cls == ty.cls

/-! ### Comparisons -/

/-- Key order inside the numeric class. -/
def numericCmp (a b : Value) : Ordering :=
  match a.int?, b.int? with
  | some m, some n => compare m n
  | _, _ => Double.totalCmp (a.double?.getD .zero) (b.double?.getD .zero)

/-- The total key order. -/
def keyCmp (a b : Value) : Ordering :=
  (compare a.cls.rank b.cls.rank).then <|
    match a, b with
    | .null, .null => .eq
    | .bool p, .bool q => compare p q
    | .text s, .text t => compare s t
    | .timestamp s, .timestamp t => compare s.toInt t.toInt
    | _, _ => numericCmp a b

/-- Whether two values are equal as keys: integers and floating point numbers may be. -/
def keyEq (a b : Value) : Bool := a.keyCmp b == .eq

/-- The comparison of predicates. -/
def compare? (a b : Value) : Option Ordering :=
  if a.isNull || b.isNull || a.cls != b.cls then none else some (a.keyCmp b)

/-- Structural equality; floating point numbers are compared as numbers. -/
def same : Value → Value → Bool
  | .float x, .float y => x.numEq y
  | a, b => decide (a = b)

/-! ### Text -/

/-- Text of a value. -/
def toText : Value → String
  | .null => "null"
  | .bool true => "true"
  | .bool false => "false"
  | .int32 n => toString n.toInt
  | .int64 n => toString n.toInt ++ "L"
  | .float x => x.text
  | .text s => Text.quote s
  | .timestamp t => "@" ++ toString t.toInt

end Value

/-- A row of values. -/
abbrev Row := List Value

namespace Row

/-- Rows of equal width whose values are equal under the key order. -/
def keyEq (a b : Row) : Bool :=
  a.length == b.length && (a.zip b).all fun p => p.1.keyEq p.2

/-- Structural equality of rows. -/
def same (a b : Row) : Bool :=
  a.length == b.length && (a.zip b).all fun p => p.1.same p.2

end Row

end QueryPlanner
