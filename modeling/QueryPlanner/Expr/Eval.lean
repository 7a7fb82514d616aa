import QueryPlanner.Expr.Basic

/-!
# Evaluation of row expressions

Evaluation is two-valued: a comparison with null is false, `not` simply negates, and a predicate is
satisfied by the value `true` alone. Operands are evaluated from the left, and `and`, `or` and
membership stop as soon as the answer is known, so later faults may never arise.

* `Bindings` — values of parameters.
* `Expr.eval`, `Expr.holds` — the value of an expression, and whether a predicate is satisfied.
-/

namespace QueryPlanner

/-- Values bound to parameter names, each name once. -/
structure Bindings where
  entries : List (String × Value)
  deriving DecidableEq, Inhabited

namespace Bindings

/-- No parameter is bound. -/
def empty : Bindings := ⟨[]⟩

/-- The value bound to a name. -/
def get? (b : Bindings) (name : String) : Option Value := b.entries.lookup name

/-- Binds a name, in place of what it was bound to. -/
def insert (b : Bindings) (name : String) (value : Value) : Bindings :=
  ⟨(name, value) :: b.entries.filter fun e => e.1 != name⟩

/-- The value bound to a name, or the fault of an unbound one. -/
def resolve (b : Bindings) (name : String) : Except Fault Value :=
  match b.get? name with
  | some v => .ok v
  | none => .error (.unboundParameter name)

end Bindings

/-- The value in a column of a row. -/
def Row.column (row : Row) (index : Nat) : Except Fault Value :=
  match row[index]? with
  | some v => .ok v
  | none => .error (.columnOutOfRange index row.length)

namespace Expr

mutual

/-- The value of an expression on a row. -/
def eval (row : Row) (b : Bindings) : Expr → Except Fault Value
  | .column i => Row.column row i
  | .literal v => .ok v
  | .parameter name => b.resolve name
  | .compare op l r => do
    let x ← l.eval row b
    let y ← r.eval row b
    return .bool ((x.compare? y).any op.test)
  | .and l r => do
    if (← l.eval row b).isTrue then
      return .bool (← r.eval row b).isTrue
    else
      return .bool false
  | .or l r => do
    if (← l.eval row b).isTrue then
      return .bool true
    else
      return .bool (← r.eval row b).isTrue
  | .not e => do
    return .bool !(← e.eval row b).isTrue
  | .oneOf e choices => do
    let v ← e.eval row b
    return .bool (← matchesAny row b v choices)
  | .isNull e => do
    return .bool (← e.eval row b).isNull
  | .call method target argument => do
    let t ← target.eval row b
    let a ← argument.eval row b
    match t.text?, a.text? with
    | some t, some a => return .bool (method.apply t a)
    | _, _ => return .bool false
  | .conditional test whenTrue whenFalse => do
    if (← test.eval row b).isTrue then whenTrue.eval row b else whenFalse.eval row b

/-- Whether a value equals one of the choices, tried from the left. -/
def matchesAny (row : Row) (b : Bindings) (v : Value) : List Expr → Except Fault Bool
  | [] => .ok false
  | c :: cs => do
    let w ← c.eval row b
    if v.compare? w = some .eq then return true else matchesAny row b v cs

end

/-- Whether a row satisfies a predicate. -/
def holds (row : Row) (b : Bindings) (e : Expr) : Except Fault Bool :=
  return (← e.eval row b).isTrue

end Expr

end QueryPlanner
