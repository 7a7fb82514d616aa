import QueryPlanner.Data.Basic
import QueryPlanner.Plan.JoinChain

/-!
# Outlines of plans

A readable account of a plan: one line for each operator, indented by its depth. Joins nested on
their left side are shown as one chain.

* `Outline`, `Plan.outline` — the account as a tree.
* `Plan.explain`, `Plan.explainData` — the account as text and as plain data.
-/

namespace QueryPlanner

/-- Text of items in brackets. -/
def bracketed (items : List String) : String := "[" ++ ", ".intercalate items ++ "]"

/-- A column as reports write it. -/
def columnText (column : Nat) : String := "#" ++ toString column

/-- Text of columns in brackets. -/
def columnsText (columns : List Nat) : String := bracketed (columns.map columnText)

/-- Text of the equalities of a join. -/
def equalitiesText (pairs : List (Nat × Nat)) : String :=
  if pairs.isEmpty then "true"
  else " && ".intercalate (pairs.map fun p => columnText p.1 ++ " = " ++ columnText p.2)

/-- The condition of a join as reports write it. -/
def JoinCondition.toText : JoinCondition → String
  | .equalities pairs => equalitiesText pairs
  | .predicate p => p.toText

/-- An aggregate as reports write it. -/
def Aggregate.toText (a : Aggregate) : String :=
  match a.column with
  | some c => a.name ++ " = " ++ a.kind.name ++ "(" ++ columnText c ++ ")"
  | none => a.name ++ " = " ++ a.kind.name ++ "(*)"

/-- The arguments of a leaf. -/
def Source.detail : Source → String
  | .scan index => index.name
  | .rows _ given => s!"({given.length} rows)"
  | .seek index key => index.name ++ " key=" ++ key.toText
  | .range index condition => index.name ++ " " ++ condition.toText
  | .rangeSet index condition => index.name ++ " " ++ condition.toText
  | .multiSeek index keys => index.name ++ " keys=" ++ bracketed (keys.map KeyOperand.toText)

/-- The arguments of an operator with one input. -/
def Unary.detail : Unary → String
  | .filter predicate => predicate.toText
  | .select columns => columnsText columns
  | .calculate columns => bracketed (columns.map fun c => c.name ++ " = " ++ c.expr.toText)
  | .rename name => name
  | .sort order => order.toText
  | .skip count => toString count
  | .take count => toString count
  | .page before count => s!"skip={before} take={count}"
  | .number column => column
  | .distinct => ""
  | .aggregate groups aggregates =>
    "by " ++ columnsText groups ++ " " ++ bracketed (aggregates.map Aggregate.toText)

/-- The arguments of an operator with two inputs. -/
def Binary.detail : Binary → String
  | .join kind pairs => kind.name ++ " on " ++ equalitiesText pairs
  | .joinOn kind predicate => kind.name ++ " on " ++ predicate.toText
  | .apply kind bindings =>
    kind.name ++ " " ++ bracketed (bindings.map fun b => "$" ++ b.2 ++ " = " ++ columnText b.1)
  | .union => ""
  | .concat => ""

/-- Kind and condition of a step, as text. -/
structure JoinLabel where
  kind : String
  condition : String
  deriving DecidableEq, Inhabited

/-- An account of a plan. -/
inductive Outline where
  | operator (name detail order : String) (children : List Outline)
  /-- A chain of joins, with one label for each input but the first. -/
  | chain (order : String) (labels : List JoinLabel) (inputs : List Outline)
  deriving Inhabited

/-- A chain with one more step. What is no chain yet becomes the first input of one. -/
def Outline.joined (left right : Outline) (order : String) (label : JoinLabel) : Outline :=
  match left with
  | .chain _ labels inputs => .chain order (labels ++ [label]) (inputs ++ [right])
  | .operator .. => .chain order [label] [left, right]

/-- The account of a plan. -/
def Plan.outline : Plan → Outline
  | .source s => .operator s.name s.detail s.header.order.toText []
  | .unary op input =>
    .operator op.name op.detail (op.header input.header).order.toText [input.outline]
  | .binary op left right =>
    let order := (op.header left.header right.header).order.toText
    match op.joinStep? left.header.width with
    | some (kind, condition) =>
      left.outline.joined right.outline order ⟨kind.name, condition.toText⟩
    | none => .operator op.name op.detail order [left.outline, right.outline]

namespace Outline

/-- A line of text at a depth. -/
def line (depth : Nat) (operator detail : String) : String :=
  String.ofList (List.replicate (2 * depth) ' ') ++ operator
    ++ (if detail.isEmpty then "" else " " ++ detail) ++ "\n"

mutual

/-- Text of an outline, its outermost operator at a depth. -/
def toText (depth : Nat) : Outline → String
  | .operator name detail _ children => line depth name detail ++ childrenText (depth + 1) children
  | .chain _ labels inputs =>
    line depth "JoinChain" s!"{inputs.length} sources" ++ inputsText (depth + 1) labels inputs

/-- Text of the inputs of an operator. -/
def childrenText (depth : Nat) : List Outline → String
  | [] => ""
  | o :: os => o.toText depth ++ childrenText depth os

/-- Text of the inputs of a chain: the first stands alone, each other one below its label. -/
def inputsText (depth : Nat) (labels : List JoinLabel) : List Outline → String
  | [] => ""
  | o :: os => o.toText depth ++ stepsText depth labels os

/-- Text of the steps of a chain. -/
def stepsText (depth : Nat) (labels : List JoinLabel) : List Outline → String
  | [] => ""
  | o :: os =>
    match labels with
    | [] => ""
    | l :: ls =>
      line depth "Join" (l.kind ++ " on " ++ l.condition) ++ o.toText (depth + 1)
        ++ stepsText depth ls os

end

/-- The steps of a chain, where step `k` brings in input `k + 1`. -/
def stepsData (labels : List JoinLabel) : List Data :=
  labels.zipIdx.map fun l =>
    .record [("join_type", .text l.1.kind), ("condition", .text l.1.condition),
      ("source", .ofNat (l.2 + 1))]

mutual

/-- An outline as plain data. -/
def toData : Outline → Data
  | .operator name detail order children =>
    .record [("op", .text name), ("detail", .text detail), ("order", .text order),
      ("children", .list (childrenData children))]
  | .chain order labels inputs =>
    .record [("op", .text "JoinChain"), ("order", .text order),
      ("steps", .list (stepsData labels)), ("children", .list (childrenData inputs))]

/-- Several outlines as plain data. -/
def childrenData : List Outline → List Data
  | [] => []
  | o :: os => o.toData :: childrenData os

end

end Outline

/-- The account of a plan as text. -/
def Plan.explain (p : Plan) : String := p.outline.toText 0

/-- The account of a plan as plain data. -/
def Plan.explainData (p : Plan) : Data := p.outline.toData

end QueryPlanner
