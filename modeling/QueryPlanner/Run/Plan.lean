import QueryPlanner.Run.Operators

/-!
# Running plans

The meaning of a plan: the rows it gives over a store under bindings, or the fault that ends it.
Left inputs run before right ones.
-/

namespace QueryPlanner

/-- The rows of a plan over a store. -/
def Plan.run (store : Store) : Plan → Bindings → Except Fault (List Row)
  | .source s, b => s.run store b
  | .unary op input, b => do
    let rows ← input.run store b
    op.run b rows
  | .binary op left right, b => do
    let rows ← left.run store b
    op.run b right.header.width rows (right.run store)

end QueryPlanner
