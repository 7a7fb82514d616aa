import QueryPlanner.Plan.OrderEffect

/-!
# Correcting the order of rows

Sorts are moved up through operators that keep order and put back only where something depends on
them: below an operator whose rows depend on the order of its input, below a selection that drops a
sort column, or at the root. A sort whose order nobody sees disappears, and so does one whose input
already comes in that order.

* `Demand` — how much the operators above care about the order of a plan.
* `Arranged` — a corrected plan, the order its rows should have, and whether they have it.
* `Plan.correctOrder` — a plan with sorts where they are needed.
-/

namespace QueryPlanner

/-- How much the operators above a plan care about the order of its rows. -/
inductive Demand where
  /-- An operator above makes the order irrelevant. -/
  | ignored
  /-- The order can be seen in the result, and nothing computes with it. -/
  | observed
  /-- An operator above computes with the order. -/
  | required
  deriving DecidableEq, Inhabited

/-- The demand on the inputs of an operator. -/
def Demand.below (d : Demand) : OrderEffect → Demand
  | .sorts => .ignored
  | .breaks => .ignored
  | .needs => .required
  | .keeps => d

/-- A corrected plan and the order its rows should have. -/
structure Arranged where
  plan : Plan
  order : SortOrder
  /-- Whether the rows of the plan come in the order; otherwise a sort is due above. -/
  isSettled : Bool
  deriving Inhabited

namespace Arranged

/-- Sorts the rows by the order that is due. -/
def settle (a : Arranged) : Arranged := ⟨.unary (.sort a.order) a.plan, a.order, true⟩

/-- Whether a sort is still due. -/
def isDue (a : Arranged) : Bool := !a.order.isEmpty && !a.isSettled

/-- An operator that renumbers columns over a corrected input; column `i` of its result is column
`mapping[i]` of the input. A due sort by a dropped column cannot wait. -/
def project (op : Unary) (mapping : List Nat) (demand : Demand) (input : Arranged) :
    Except Fault Arranged :=
  let (order, missing) := input.order.remap mapping
  match missing with
  | none => .ok ⟨.unary op input.plan, order, input.isSettled⟩
  | some column =>
    if input.isSettled then .ok ⟨.unary op input.plan, order, true⟩
    else
      match demand with
      | .required => .error (.orderLost op.name column)
      | .observed => .ok ⟨.unary op input.settle.plan, order, true⟩
      | .ignored => .ok ⟨.unary op input.plan, order, false⟩

/-- An operator over its corrected input; `demand` is the demand on the input. A sort is taken off
and its order becomes due, unless the rows already come in it. -/
def unary (op : Unary) (demand : Demand) (input : Arranged) : Except Fault Arranged :=
  match op with
  | .sort order => .ok ⟨input.plan, order, input.isSettled && input.order.startsWith order⟩
  | .select columns => input.project (.select columns) columns demand
  | .aggregate groups aggregates => input.project (.aggregate groups aggregates) groups demand
  | op => .ok ⟨.unary op input.plan, input.order, input.isSettled⟩

/-- An operator over its corrected inputs. Rows come by the left input first, so the order of a
settled right input holds only for each left row and is not claimed; one that is due follows the
order of the left input. -/
def binary (op : Binary) (left right : Arranged) : Arranged :=
  ⟨.binary op left.plan right.plan,
    if right.isSettled then left.order
    else left.order ++ right.order.shift left.plan.header.width,
    left.isSettled && right.isSettled⟩

/-- The order left by an operator with an effect, with a due sort put back below an operator that
needs it. -/
def finish (effect : OrderEffect) (isNeeded : Bool) (a : Arranged) : Arranged :=
  let a := if effect = .breaks then ⟨a.plan, [], true⟩ else a
  if isNeeded && effect ≠ .needs && a.isDue then a.settle else a

end Arranged

namespace Plan

/-- Corrects a plan below an operator; `isNeeded` tells whether that operator needs the order of its
input, and `demand` how much all operators above care. -/
def arrange (effects : OrderEffects) : Plan → Bool → Demand → Except Fault Arranged
  | .source s, isNeeded, _ =>
    .ok (Arranged.finish (effects (.source s)) isNeeded ⟨.source s, s.header.order, true⟩)
  | .unary op input, isNeeded, demand => do
    let effect := effects (.unary op input)
    let below := demand.below effect
    let child ← input.arrange effects (effect = .needs) below
    return (← Arranged.unary op below child).finish effect isNeeded
  | .binary op left right, isNeeded, demand => do
    let effect := effects (.binary op left right)
    let below := demand.below effect
    let l ← left.arrange effects (effect = .needs) below
    let r ← right.arrange effects (effect = .needs) below
    return (Arranged.binary op l r).finish effect isNeeded

/-- The plan with sorts exactly where something depends on them. It fails if an operator drops a
column by which rows have to be sorted further up. -/
def correctOrder (effects : OrderEffects) (p : Plan) : Except Fault Plan := do
  let a ← p.arrange effects false .observed
  return if a.isDue then a.settle.plan else a.plan

end Plan

end QueryPlanner
