import QueryPlanner.Expr.Eval
import QueryPlanner.Key.IntervalSet

/-!
# Conditions on the leading key of an index

A condition describes a set of keys before the parameters in it are known. It is built once for a
query and evaluated to a set of intervals under the values of a run, or under expected values when
costs are estimated. A test whose parameter is unbound constrains nothing, under either polarity.

* `KeyOperand`, `KeyTest`, `KeyCondition` — operands, single tests and their combinations.
* `KeyCondition.keys` — the set of keys of a condition.
* `KeyCondition.seekKey?`, `KeyCondition.pointKeys?`, `KeyCondition.isInterval` — which access path
  suits a condition.
-/

namespace QueryPlanner

/-- A constant, or a parameter bound later. -/
inductive KeyOperand where
  | literal (value : Value)
  | parameter (name : String)
  deriving DecidableEq, Inhabited

namespace KeyOperand

/-- The operand that a literal or a parameter expression is. -/
def ofExpr? : Expr → Option KeyOperand
  | .literal v => some (.literal v)
  | .parameter name => some (.parameter name)
  | _ => none

/-- The value of an operand, if it is bound. -/
def value? (b : Bindings) : KeyOperand → Option Value
  | .literal v => some v
  | .parameter name => b.get? name

/-- The value of an operand, or the fault of an unbound parameter. -/
def resolve (b : Bindings) : KeyOperand → Except Fault Value
  | .literal v => .ok v
  | .parameter name => b.resolve name

/-- Whether an operand has a value only once parameters are bound. -/
def isParameter : KeyOperand → Bool
  | .literal _ => false
  | .parameter _ => true

/-- Structural equality; floating point literals are compared as numbers. -/
def same : KeyOperand → KeyOperand → Bool
  | .literal v, .literal w => v.same w
  | .parameter a, .parameter b => a == b
  | _, _ => false

/-- An operand as reports write it, a parameter after a dollar sign. -/
def toText : KeyOperand → String
  | .literal v => v.toText
  | .parameter name => "$" ++ name

end KeyOperand

/-! ### Texts with a common beginning -/

/-- The next character in code point order, which skips the surrogates. -/
def nextChar? (c : Char) : Option Char :=
  if c.toNat = 0xD7FF then some (Char.ofNat 0xE000)
  else if c.toNat = 0x10FFFF then none
  else some (Char.ofNat (c.toNat + 1))

/-- Raises the last character that can be raised, counting from the end of a reversed text, and
drops those after it. -/
def raiseReversed : List Char → Option (List Char)
  | [] => none
  | c :: rest =>
    match nextChar? c with
    | some d => some (d :: rest)
    | none => raiseReversed rest

/-- The least text above every text that starts with a given one. -/
def textAbove? (start : String) : Option String :=
  (raiseReversed start.toList.reverse).map fun cs => String.ofList cs.reverse

/-- The texts that start with a given one. -/
def IntervalSet.startingWith (start : String) : IntervalSet :=
  let high :=
    match textAbove? start with
    | some next => Bound.before (.text next)
    | none => .top
  .ofIntervals [⟨.exactly (.text start), high⟩]

/-- The keys that stand in a relation to a value. Null stands in none. -/
def IntervalSet.comparing (op : CompareOp) (v : Value) : IntervalSet :=
  match op with
  | .eq => .ofIntervals [.point v]
  | .ne => .ofIntervals [⟨.after .null, .before v⟩, ⟨.after v, .top⟩]
  | .lt => .ofIntervals [⟨.after .null, .before v⟩]
  | .le => .ofIntervals [⟨.after .null, .exactly v⟩]
  | .gt => .ofIntervals [⟨.after v, .top⟩]
  | .ge => .ofIntervals [⟨.exactly v, .top⟩]

/-! ### Tests -/

/-- A test of the key. -/
inductive KeyTest where
  | compare (op : CompareOp) (operand : KeyOperand)
  | oneOf (operands : List KeyOperand)
  | isNull
  | startsWith (operand : KeyOperand)
  deriving DecidableEq, Inhabited

namespace KeyTest

/-- The keys that pass a test, if all its parameters are bound. An operand that cannot be compared
with the key passes no key. -/
def exactKeys? (ty : ColumnType) (b : Bindings) : KeyTest → Option IntervalSet
  | .compare op operand => do
    let v ← operand.value? b
    return if v.isComparableWith ty then .comparing op v else .empty
  | .oneOf operands => do
    let vs ← operands.mapM (KeyOperand.value? b)
    return .points (vs.filter fun v => v.isComparableWith ty)
  | .isNull => some (.points [.null])
  | .startsWith operand => do
    let v ← operand.value? b
    match v.text?, ty with
    | some s, .text => return .startingWith s
    | _, _ => return .empty

/-- The keys that pass a test, or fail it when negated. With an unbound parameter that is every key,
so that no row is lost. -/
def keys (ty : ColumnType) (b : Bindings) (test : KeyTest) (negated : Bool) : IntervalSet :=
  match test.exactKeys? ty b with
  | some s => if negated then s.complement else s
  | none => .full

/-- Whether the keys passing a test always form at most one interval. -/
def isInterval : KeyTest → Bool
  | .compare op _ => op != .ne
  | .oneOf _ => false
  | .isNull => true
  | .startsWith _ => true

/-- The operands of a test that selects single keys. -/
def pointKeys? : KeyTest → Option (List KeyOperand)
  | .compare .eq operand => some [operand]
  | .oneOf operands => some operands
  | _ => none

/-- Whether a test reads a parameter. -/
def readsParameter : KeyTest → Bool
  | .compare _ operand => operand.isParameter
  | .oneOf operands => operands.any KeyOperand.isParameter
  | .isNull => false
  | .startsWith operand => operand.isParameter

/-- Structural equality; floating point literals are compared as numbers. -/
def same : KeyTest → KeyTest → Bool
  | .compare o k, .compare o' k' => o == o' && k.same k'
  | .oneOf ks, .oneOf ks' => ks.length == ks'.length && (ks.zip ks').all fun p => p.1.same p.2
  | .isNull, .isNull => true
  | .startsWith k, .startsWith k' => k.same k'
  | _, _ => false

/-- A test as reports write it. -/
def toText : KeyTest → String
  | .compare op operand => "(key " ++ op.symbol ++ " " ++ operand.toText ++ ")"
  | .oneOf operands => "(key in [" ++ ", ".intercalate (operands.map KeyOperand.toText) ++ "])"
  | .isNull => "(key is null)"
  | .startsWith operand => "(key starts_with " ++ operand.toText ++ ")"

end KeyTest

/-! ### Conditions -/

/-- A condition on the leading key. -/
inductive KeyCondition where
  | always
  | never
  | test (test : KeyTest) (negated : Bool)
  /-- All of several conditions. -/
  | all (parts : List KeyCondition)
  /-- At least one of several conditions. -/
  | any (parts : List KeyCondition)
  deriving Inhabited

namespace KeyCondition

/-- The parts of a conjunction; any other condition is its own only part. -/
def allParts : KeyCondition → List KeyCondition
  | .all parts => parts
  | c => [c]

/-- The parts of a disjunction; any other condition is its own only part. -/
def anyParts : KeyCondition → List KeyCondition
  | .any parts => parts
  | c => [c]

/-- Both of two conditions, simplified. -/
def both : KeyCondition → KeyCondition → KeyCondition
  | .always, c => c
  | c, .always => c
  | .never, _ => .never
  | _, .never => .never
  | a, b => .all (a.allParts ++ b.allParts)

/-- At least one of two conditions, simplified. -/
def either : KeyCondition → KeyCondition → KeyCondition
  | .never, c => c
  | c, .never => c
  | .always, _ => .always
  | _, .always => .always
  | a, b => .any (a.anyParts ++ b.anyParts)

mutual

/-- The keys that satisfy a condition. -/
def keys (ty : ColumnType) (b : Bindings) : KeyCondition → IntervalSet
  | .always => .full
  | .never => .empty
  | .test t negated => t.keys ty b negated
  | .all parts => keysOfAll ty b .full parts
  | .any parts => keysOfAny ty b .empty parts

/-- The keys of a set that satisfy every part. -/
def keysOfAll (ty : ColumnType) (b : Bindings) (s : IntervalSet) : List KeyCondition → IntervalSet
  | [] => s
  | c :: cs => keysOfAll ty b (s.intersect (c.keys ty b)) cs

/-- A set together with the keys that satisfy some part. -/
def keysOfAny (ty : ColumnType) (b : Bindings) (s : IntervalSet) : List KeyCondition → IntervalSet
  | [] => s
  | c :: cs => keysOfAny ty b (s.union (c.keys ty b)) cs

end

/-- Whether a condition is the one that all keys satisfy by its form. -/
def isAlways : KeyCondition → Bool
  | .always => true
  | _ => false

/-- The operand of a single equality. -/
def seekKey? : KeyCondition → Option KeyOperand
  | .test (.compare .eq operand) false => some operand
  | _ => none

mutual

/-- The operands of a condition that selects single keys. -/
def pointKeys? : KeyCondition → Option (List KeyOperand)
  | .test t false => t.pointKeys?
  | .any parts => pointKeysOfAny? parts
  | _ => none

/-- The operands of all parts, if every part selects single keys. -/
def pointKeysOfAny? : List KeyCondition → Option (List KeyOperand)
  | [] => some []
  | c :: cs => do
    let keys ← c.pointKeys?
    let rest ← pointKeysOfAny? cs
    return keys ++ rest

end

mutual

/-- Whether the keys always form at most one interval. -/
def isInterval : KeyCondition → Bool
  | .always => true
  | .never => true
  | .test t negated => !negated && t.isInterval
  | .all parts => areIntervals parts
  | .any _ => false

/-- Whether the keys of every part form at most one interval. -/
def areIntervals : List KeyCondition → Bool
  | [] => true
  | c :: cs => c.isInterval && areIntervals cs

end

mutual

/-- Structural equality; floating point literals are compared as numbers. -/
def same : KeyCondition → KeyCondition → Bool
  | .always, .always => true
  | .never, .never => true
  | .test t n, .test t' n' => t.same t' && n == n'
  | .all ps, .all ps' => sameAll ps ps'
  | .any ps, .any ps' => sameAll ps ps'
  | _, _ => false

/-- Structural equality of lists of conditions. -/
def sameAll : List KeyCondition → List KeyCondition → Bool
  | [], [] => true
  | c :: cs, d :: ds => c.same d && sameAll cs ds
  | _, _ => false

end

mutual

/-- A condition as reports write it, its parts in parentheses. -/
def toText : KeyCondition → String
  | .always => "full"
  | .never => "empty"
  | .test t negated => if negated then "!" ++ t.toText else t.toText
  | .all parts => "(" ++ " & ".intercalate (toTexts parts) ++ ")"
  | .any parts => "(" ++ " | ".intercalate (toTexts parts) ++ ")"

/-- Texts of several conditions. -/
def toTexts : List KeyCondition → List String
  | [] => []
  | c :: cs => c.toText :: toTexts cs

end

end KeyCondition

end QueryPlanner
