import QueryPlanner.Key.Bound

/-!
# Key intervals

An interval of keys between two inclusive bounds.
-/

namespace QueryPlanner

/-- The keys from a low bound to a high bound. -/
structure Interval where
  low : Bound
  high : Bound
  deriving DecidableEq, Inhabited

namespace Interval

/-- The single key of a value. -/
def point (v : Value) : Interval := ⟨.exactly v, .exactly v⟩

/-- Every key. -/
def full : Interval := ⟨.bottom, .top⟩

/-- Whether a key lies in the interval. -/
def contains (i : Interval) (key : Value) : Bool :=
  i.low.le (.exactly key) && (Bound.exactly key).le i.high

/-- Whether no key can lie in the interval. Null is the lowest key, so nothing lies below it. -/
def isDegenerate (i : Interval) : Bool :=
  match i.low.cmp i.high with
  | .gt => true
  | .eq => i.low.key?.isNone
  | .lt => i.low == .bottom && i.high.le (.before .null)

/-- The key of an interval that holds a single one. -/
def point? (i : Interval) : Option Value :=
  if i.low.equiv i.high then i.low.key? else none

/-- The keys in both of two intervals. -/
def intersect (a b : Interval) : Interval := ⟨a.low.max b.low, a.high.min b.high⟩

/-- An interval as reports write it; a single key stands alone. -/
def toText (i : Interval) : String :=
  match i.point? with
  | some v => "[" ++ v.toText ++ "]"
  | none => "[" ++ i.low.toText ++ ", " ++ i.high.toText ++ "]"

end Interval

end QueryPlanner
