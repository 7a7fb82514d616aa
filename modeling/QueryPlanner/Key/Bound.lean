import QueryPlanner.Value

/-!
# Bounds of key intervals

A bound is a key value moved by an infinitesimal amount to one side, or one of the two infinities.
Open and closed ends are then both inclusive bounds: keys above `5` start just after `5`.
-/

namespace QueryPlanner

/-- The side of a key value on which a bound lies. -/
inductive Side where
  | below
  | same
  | above
  deriving DecidableEq, Inhabited

/-- The position of a side among the bounds at one key, from below. -/
def Side.rank : Side → Nat
  | .below => 0
  | .same => 1
  | .above => 2

/-- A bound of a key interval. -/
inductive Bound where
  /-- Below every key. -/
  | bottom
  | key (value : Value) (side : Side)
  /-- Above every key. -/
  | top
  deriving DecidableEq, Inhabited

namespace Bound

/-- The key itself. -/
def exactly (v : Value) : Bound := .key v .same

/-- Just above every key equal to a value. -/
def after (v : Value) : Bound := .key v .above

/-- Just below every key equal to a value. -/
def before (v : Value) : Bound := .key v .below

/-- The value of a bound that lies exactly on one. -/
def key? : Bound → Option Value
  | .key v .same => some v
  | _ => none

/-- The order of bounds: by key, then by side. -/
def cmp : Bound → Bound → Ordering
  | .bottom, .bottom => .eq
  | .top, .top => .eq
  | .bottom, _ => .lt
  | _, .top => .lt
  | _, .bottom => .gt
  | .top, _ => .gt
  | .key a s, .key b t => (a.keyCmp b).then (compare s.rank t.rank)

/-- Whether a bound lies below another one or with it. -/
def le (a b : Bound) : Bool := a.cmp b != .gt

/-- Whether a bound lies below another one. -/
def lt (a b : Bound) : Bool := a.cmp b == .lt

/-- Equality under the order of bounds. -/
def equiv (a b : Bound) : Bool := a.cmp b == .eq

/-- The greater of two bounds; of equal ones the second. -/
def max (a b : Bound) : Bound := if b.lt a then a else b

/-- The lesser of two bounds; of equal ones the first. -/
def min (a b : Bound) : Bound := if b.lt a then b else a

/-- The upper end of the gap below a bound. -/
def predecessor : Bound → Bound
  | .key v .same => before v
  | .key v .above => exactly v
  | b => b

/-- The lower end of the gap above a bound. -/
def successor : Bound → Bound
  | .key v .same => after v
  | b => b

/-- Whether no key lies strictly between two bounds that touch. -/
def adjacent : Bound → Bound → Bool
  | .bottom, .key v side => v.isNull && side != .above
  | .key a .below, .key b .same => a.keyEq b
  | .key a .same, .key b .above => a.keyEq b
  | _, _ => false

/-- A bound as reports write it: its key, with the side if it lies beside the key. -/
def toText : Bound → String
  | .bottom => "-inf"
  | .top => "+inf"
  | .key v .same => v.toText
  | .key v .below => v.toText ++ "-e"
  | .key v .above => v.toText ++ "+e"

end Bound

end QueryPlanner
