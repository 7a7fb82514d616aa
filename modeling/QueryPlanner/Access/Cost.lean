import QueryPlanner.Key.IntervalSet
import QueryPlanner.Plan.Index

/-!
# Costs of reading an index

A cost counts rows produced, input and output steps, and processing steps, in 64-bit words whose
sums wrap around. It carries the total by which costs are compared: costs that are put together have
the weighted sum of their steps, while a cost model may say another total. The built-in model
guesses what share of an index an interval selects from its shape alone.

* `Cost`, `Cost.ofSteps` — a cost, and the one with the weighted total of its steps.
* `CostModel` — the cost of reading a set of keys from an index.
* `Guess` — the built-in model.
-/

namespace QueryPlanner

/-- An estimated cost. -/
structure Cost where
  /-- Rows produced. -/
  rows : UInt64
  /-- Seeks made and rows read. -/
  io : UInt64
  /-- Rows produced and predicates evaluated. -/
  cpu : UInt64
  /-- The total, by which costs are compared. -/
  total : Double
  deriving DecidableEq, Inhabited

namespace Cost

/-- What an input or output step counts in the total. -/
def ioWeight : Double := .ofNat 10

/-- What a processing step counts in the total. -/
def cpuWeight : Double := .ofNat 1

/-- The cost of so many rows and steps, with its weighted total. -/
def ofSteps (rows io cpu : UInt64) : Cost :=
  ⟨rows, io, cpu,
    ((Double.ofNat io.toNat).mul ioWeight).add ((Double.ofNat cpu.toNat).mul cpuWeight)⟩

/-- The cost of doing nothing. -/
def zero : Cost := ⟨0, 0, 0, .zero⟩

/-- The cost of one thing and another. -/
def add (a b : Cost) : Cost := ofSteps (a.rows + b.rows) (a.io + b.io) (a.cpu + b.cpu)

/-- The cost including the evaluation of a predicate on every row. -/
def withFilter (c : Cost) : Cost := ofSteps c.rows c.io (c.cpu + c.rows)

end Cost

/-- The cost of reading a set of keys from an index. -/
abbrev CostModel := Index → IntervalSet → Cost

namespace Interval

/-- Whether an interval has a low end that excludes keys. Null satisfies no comparison, so an
interval that starts at null excludes nothing. -/
def hasLow (i : Interval) : Bool :=
  match i.low with
  | .bottom => false
  | .key v _ => !v.isNull
  | .top => true

/-- Whether an interval has a high end that excludes keys. -/
def hasHigh (i : Interval) : Bool := i.high != .top

end Interval

/-- A cost model that guesses from the shape of intervals. -/
structure Guess where
  /-- The rows assumed in an index that does not say. -/
  defaultRowCount : Nat
  /-- The extra cost of each seek into a secondary index. -/
  seekPenalty : Double
  deriving DecidableEq, Inhabited

namespace Guess

/-- The rows an index has, or is assumed to have. -/
def rowCount (g : Guess) (index : Index) : Nat := index.rowCount.getD g.defaultRowCount

/-- The share of an index with so many rows that an interval selects. -/
def share (index : Index) (rows : Nat) (i : Interval) : Double :=
  if i.point?.isSome then
    if index.isUniqueOnLeadingKey then (Double.ofNat 1).div (.ofNat (max rows 1))
    else .ofDecimal false 1 (-1)
  else
    match i.hasLow, i.hasHigh with
    | true, true => .ofDecimal false 9 (-2)
    | false, false => .ofNat 1
    | _, _ => .ofDecimal false 3 (-1)

/-- The share of an index that a set of keys selects: the sum over its intervals, at most one. -/
def selectivity (g : Guess) (index : Index) (keys : IntervalSet) : Double :=
  let sum := (keys.intervals.map (share index (g.rowCount index))).foldl Double.add .zero
  if (Double.ofNat 1).before sum then .ofNat 1 else sum

/-- The guessed cost of reading a set of keys: a seek for each interval and every row read. -/
def cost (g : Guess) : CostModel := fun index keys =>
  let selected := ((Double.ofNat (g.rowCount index)).mul (g.selectivity index keys)).ceilCount
  let seeks := keys.intervals.length
  let seekCost :=
    if index.isPrimary then UInt64.ofNat seeks
    else ((Double.ofNat seeks).mul ((Double.ofNat 1).add g.seekPenalty)).ceilCount
  .ofSteps selected (seekCost + selected) selected

end Guess

end QueryPlanner
