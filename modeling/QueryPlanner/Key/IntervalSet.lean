import QueryPlanner.Key.Interval

/-!
# Sets of keys

A set of keys as a list of intervals, increasing and with a gap between any two. Every operation
ends in `ofIntervals`, which drops empty intervals, sorts the rest by their low bound and merges
those that overlap or touch.

* `IntervalSet.ofIntervals` — the set of keys lying in one of several intervals.
* `IntervalSet.union`, `IntervalSet.intersect`, `IntervalSet.complement` — the set operations.
* `IntervalSet.contains` — membership of a key.
-/

namespace QueryPlanner

/-- A set of keys, as separated intervals in increasing order. -/
structure IntervalSet where
  intervals : List Interval
  deriving DecidableEq, Inhabited

namespace IntervalSet

/-- The set without keys. -/
def empty : IntervalSet := ⟨[]⟩

/-- The set of all keys. -/
def full : IntervalSet := ⟨[.full]⟩

/-- Whether an interval that starts no earlier overlaps or touches another. -/
def joins (last next : Interval) : Bool :=
  next.low.le last.high || last.high.adjacent next.low

/-- An interval stretched to the high end of another, if that is higher. -/
def stretch (last next : Interval) : Interval :=
  if last.high.lt next.high then ⟨last.low, next.high⟩ else last

/-- Merges an interval with those of a list sorted by low bound, as far as they overlap or touch. -/
def absorb (last : Interval) : List Interval → List Interval
  | [] => [last]
  | next :: rest =>
    if joins last next then absorb (stretch last next) rest else last :: absorb next rest

/-- Merges the overlapping and touching intervals of a list sorted by low bound. -/
def merge : List Interval → List Interval
  | [] => []
  | first :: rest => absorb first rest

/-- The keys lying in one of several intervals. -/
def ofIntervals (intervals : List Interval) : IntervalSet :=
  ⟨merge ((intervals.filter fun i => !i.isDegenerate).mergeSort fun a b => a.low.le b.low)⟩

/-- The keys of several values. -/
def points (values : List Value) : IntervalSet := ofIntervals (values.map .point)

/-- Whether the set has no interval, and so no key. -/
def isEmpty (s : IntervalSet) : Bool := s.intervals.isEmpty

/-- Whether the set holds every key. -/
def isFull (s : IntervalSet) : Bool :=
  match s.intervals with
  | [i] => i.high == .top && (i.low == .bottom || Bound.bottom.adjacent i.low)
  | _ => false

/-- Whether a key lies in one of the intervals. -/
def contains (s : IntervalSet) (key : Value) : Bool := s.intervals.any fun i => i.contains key

/-- The keys of either set. -/
def union (a b : IntervalSet) : IntervalSet := ofIntervals (a.intervals ++ b.intervals)

/-- The keys of both sets, interval by interval. -/
def intersect (a b : IntervalSet) : IntervalSet :=
  ofIntervals (a.intervals.flatMap fun i => b.intervals.map fun j => i.intersect j)

/-- The gaps from a bound on that separated intervals leave. -/
def gaps (start : Bound) : List Interval → List Interval
  | [] => [⟨start, .top⟩]
  | i :: rest =>
    (if i.low == .bottom then [] else [⟨start, i.low.predecessor⟩])
      ++ if i.high == .top then [] else gaps i.high.successor rest

/-- Every key that is not in the set. -/
def complement (s : IntervalSet) : IntervalSet := ofIntervals (gaps .bottom s.intervals)

/-- The keys of a set made of single keys only. -/
def points? (s : IntervalSet) : Option (List Value) := s.intervals.mapM Interval.point?

/-- Equality of sets, bound by bound. -/
def equiv (a b : IntervalSet) : Bool :=
  a.intervals.length == b.intervals.length
    && (a.intervals.zip b.intervals).all fun p => p.1.low.equiv p.2.low && p.1.high.equiv p.2.high

/-- A set as reports write it. -/
def toText (s : IntervalSet) : String :=
  if s.isEmpty then "\x7b\x7d" else " U ".intercalate (s.intervals.map Interval.toText)

end IntervalSet

end QueryPlanner
