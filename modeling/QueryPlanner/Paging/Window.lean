import QueryPlanner.Plan.Basic

/-!
# Paging windows

A window passes some of the rows: it skips a number of them and takes at most a number of the rest.
Counts are 64-bit words, so a skip stops growing at the largest one.
-/

namespace QueryPlanner

/-- Skips rows, then takes the rest or so many of it. -/
structure Window where
  skipped : Nat
  /-- How many rows are taken at most; `none` takes all. -/
  taken : Option Nat
  deriving DecidableEq, Inhabited

namespace Window

/-- The largest count. -/
def maxCount : Nat := UInt64.size - 1

/-- The window that passes every row. -/
def unbounded : Window := ⟨0, none⟩

/-- The window followed by a further skip. -/
def skip (w : Window) (count : Nat) : Window :=
  ⟨min (w.skipped + count) maxCount, w.taken.map fun t => t - count⟩

/-- The window followed by a further take. -/
def take (w : Window) (count : Nat) : Window :=
  ⟨w.skipped, some (match w.taken with
    | none => count
    | some t => min t count)⟩

/-- Whether a window leaves nothing out. -/
def isUnbounded (w : Window) : Bool := w.skipped == 0 && w.taken.isNone

/-- The rows of a list that pass. -/
def rows {α : Type} (w : Window) (items : List α) : List α :=
  match w.taken with
  | none => items.drop w.skipped
  | some t => (items.drop w.skipped).take t

/-- The plan that applies a window in at most one step. -/
def apply (w : Window) (p : Plan) : Plan :=
  match w.skipped, w.taken with
  | 0, none => p
  | 0, some t => .unary (.take t) p
  | s + 1, none => .unary (.skip (s + 1)) p
  | s + 1, some t => .unary (.page (s + 1) t) p

end Window

end QueryPlanner
