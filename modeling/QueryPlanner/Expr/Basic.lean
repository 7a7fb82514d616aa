import QueryPlanner.Fault

/-!
# Row expressions

Expressions over the columns of a row: predicates of filters and joins, and calculated columns.
Columns are addressed by position and parameters by name.

* `CompareOp`, `TextMethod` — comparison operators and tests on text.
* `Expr` — expressions, with their text, the columns they read and structural equality.
-/

namespace QueryPlanner

/-- A comparison operator. -/
inductive CompareOp where
  | eq
  | ne
  | lt
  | le
  | gt
  | ge
  deriving DecidableEq, Inhabited

namespace CompareOp

/-- The operator that holds when the operands change sides. -/
def swap : CompareOp → CompareOp
  | .eq => .eq
  | .ne => .ne
  | .lt => .gt
  | .le => .ge
  | .gt => .lt
  | .ge => .le

/-- Whether an ordering satisfies the operator. -/
def test : CompareOp → Ordering → Bool
  | .eq, o => o == .eq
  | .ne, o => o != .eq
  | .lt, o => o == .lt
  | .le, o => o != .gt
  | .gt, o => o == .gt
  | .ge, o => o != .lt

/-- A comparison as reports write it. -/
def symbol : CompareOp → String
  | .eq => "=="
  | .ne => "!="
  | .lt => "<"
  | .le => "<="
  | .gt => ">"
  | .ge => ">="

end CompareOp

/-- A test of one text against another. -/
inductive TextMethod where
  | startsWith
  | endsWith
  | contains
  deriving DecidableEq, Inhabited

namespace TextMethod

/-- Whether `part` occurs in a list as a block of neighbours. -/
def occursIn (part : List Char) : List Char → Bool
  | [] => part.isEmpty
  | c :: cs => part.isPrefixOf (c :: cs) || occursIn part cs

/-- The answer of the test on a text and its argument. -/
def apply (method : TextMethod) (target argument : String) : Bool :=
  match method with
  | .startsWith => argument.toList.isPrefixOf target.toList
  | .endsWith => argument.toList.isSuffixOf target.toList
  | .contains => occursIn argument.toList target.toList

/-- A test of texts as reports write it. -/
def name : TextMethod → String
  | .startsWith => "starts_with"
  | .endsWith => "ends_with"
  | .contains => "contains"

end TextMethod

/-- A row expression. -/
inductive Expr where
  /-- A column of the row, by position. -/
  | column (index : Nat)
  | literal (value : Value)
  /-- A value bound when the plan runs. -/
  | parameter (name : String)
  | compare (op : CompareOp) (left right : Expr)
  | and (left right : Expr)
  | or (left right : Expr)
  | not (inner : Expr)
  /-- Equality with one of several choices. -/
  | oneOf (target : Expr) (choices : List Expr)
  | isNull (inner : Expr)
  | call (method : TextMethod) (target argument : Expr)
  | conditional (test whenTrue whenFalse : Expr)
  deriving Inhabited

namespace Expr

/-! ### Text -/

mutual

/-- Text of an expression. -/
def toText : Expr → String
  | .column i => "#" ++ toString i
  | .literal v => v.toText
  | .parameter name => "$" ++ name
  | .compare op l r => "(" ++ l.toText ++ " " ++ op.symbol ++ " " ++ r.toText ++ ")"
  | .and l r => "(" ++ l.toText ++ " && " ++ r.toText ++ ")"
  | .or l r => "(" ++ l.toText ++ " || " ++ r.toText ++ ")"
  | .not e => "!" ++ e.toText
  | .oneOf e choices => e.toText ++ " in [" ++ ", ".intercalate (toTexts choices) ++ "]"
  | .isNull e => e.toText ++ " is null"
  | .call method target argument =>
    target.toText ++ "." ++ method.name ++ "(" ++ argument.toText ++ ")"
  | .conditional test a b =>
    "(" ++ test.toText ++ " ? " ++ a.toText ++ " : " ++ b.toText ++ ")"

/-- Texts of several expressions. -/
def toTexts : List Expr → List String
  | [] => []
  | e :: es => e.toText :: toTexts es

end

/-! ### Columns -/

mutual

/-- The columns an expression reads, in order of occurrence. -/
def columnsRead : Expr → List Nat
  | .column i => [i]
  | .literal _ => []
  | .parameter _ => []
  | .compare _ l r => l.columnsRead ++ r.columnsRead
  | .and l r => l.columnsRead ++ r.columnsRead
  | .or l r => l.columnsRead ++ r.columnsRead
  | .not e => e.columnsRead
  | .oneOf e choices => e.columnsRead ++ columnsReadAll choices
  | .isNull e => e.columnsRead
  | .call _ target argument => target.columnsRead ++ argument.columnsRead
  | .conditional test a b => test.columnsRead ++ a.columnsRead ++ b.columnsRead

/-- The columns several expressions read. -/
def columnsReadAll : List Expr → List Nat
  | [] => []
  | e :: es => e.columnsRead ++ columnsReadAll es

end

/-- The columns an expression reads, increasing and each once. -/
def columns (e : Expr) : List Nat :=
  (e.columnsRead.mergeSort fun a b => decide (a ≤ b)).eraseReps

/-! ### Equality -/

mutual

/-- Structural equality; floating point literals are compared as numbers. -/
def same : Expr → Expr → Bool
  | .column i, .column j => i == j
  | .literal v, .literal w => v.same w
  | .parameter a, .parameter b => a == b
  | .compare o l r, .compare o' l' r' => o == o' && l.same l' && r.same r'
  | .and l r, .and l' r' => l.same l' && r.same r'
  | .or l r, .or l' r' => l.same l' && r.same r'
  | .not e, .not e' => e.same e'
  | .oneOf e cs, .oneOf e' cs' => e.same e' && sameAll cs cs'
  | .isNull e, .isNull e' => e.same e'
  | .call m t a, .call m' t' a' => m == m' && t.same t' && a.same a'
  | .conditional t a b, .conditional t' a' b' => t.same t' && a.same a' && b.same b'
  | _, _ => false

/-- Structural equality of lists of expressions. -/
def sameAll : List Expr → List Expr → Bool
  | [], [] => true
  | e :: es, f :: fs => e.same f && sameAll es fs
  | _, _ => false

end

end Expr

end QueryPlanner
