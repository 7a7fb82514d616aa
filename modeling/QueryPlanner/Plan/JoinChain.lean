import QueryPlanner.Plan.Basic

/-!
# Join chains

Joins nested on their left side, as one list of inputs and one list of steps. A join on the right
side stays a single input. Columns in the conditions are positions in the whole joined row.
-/

namespace QueryPlanner

/-- When two rows of a join step match. -/
inductive JoinCondition where
  /-- Equalities between columns of the joined row. -/
  | equalities (pairs : List (Nat × Nat))
  /-- A predicate on the row joined so far. -/
  | predicate (predicate : Expr)
  deriving Inhabited

/-- One step of a chain: an input joined to everything on its left. -/
structure JoinStep where
  /-- Position of the right-hand input in the chain. -/
  input : Nat
  kind : JoinKind
  condition : JoinCondition
  deriving Inhabited

/-- Joins nested on their left side. -/
structure JoinChain where
  inputs : List Plan
  steps : List JoinStep
  deriving Inhabited

/-- Kind and condition of a join whose right columns start at `offset` in the joined row. -/
def Binary.joinStep? (op : Binary) (offset : Nat) : Option (JoinKind × JoinCondition) :=
  match op with
  | .join kind pairs => some (kind, .equalities (pairs.map fun p => (p.1, p.2 + offset)))
  | .joinOn kind predicate => some (kind, .predicate predicate)
  | _ => none

namespace JoinChain

/-- The chain along the left side of a plan; a plan that is no join is a chain of one input. -/
def spine : Plan → JoinChain
  | .binary op left right =>
    match op.joinStep? left.header.width with
    | some (kind, condition) =>
      let chain := spine left
      ⟨chain.inputs ++ [right], chain.steps ++ [⟨chain.inputs.length, kind, condition⟩]⟩
    | none => ⟨[.binary op left right], []⟩
  | p => ⟨[p], []⟩

/-- The chain of a join. -/
def ofPlan? (p : Plan) : Option JoinChain :=
  let chain := spine p
  if chain.steps.isEmpty then none else some chain

/-- Running sums of widths, from an offset. -/
def offsetsFrom : Nat → List Nat → List Nat
  | _, [] => []
  | offset, w :: ws => offset :: offsetsFrom (offset + w) ws

/-- Where each input starts in the joined row. -/
def offsets (chain : JoinChain) : List Nat :=
  offsetsFrom 0 (chain.inputs.map fun p => p.header.width)

end JoinChain

end QueryPlanner
