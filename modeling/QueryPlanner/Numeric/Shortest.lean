import QueryPlanner.Numeric.Double

/-!
# Shortest decimal text of a floating point number

A finite number is written with the fewest decimal digits that read back as the same number. The
numbers that read back as `x` form an interval around it; the shortest decimal is found by testing,
grid by grid, the two neighbours of `x` on the grid of multiples of `10 ^ p`, for `p` going down.

* `Decimal` — a decimal `digits * 10 ^ exponent`.
* `Double.shortest` — the shortest decimal of a finite number other than zero.
* `Layout`, `Double.text` — which exponents are written positionally, and the text itself.
-/

namespace QueryPlanner

/-- The decimal number `digits * 10 ^ exponent`. -/
structure Decimal where
  digits : Nat
  exponent : Int
  deriving DecidableEq, Inhabited

namespace Decimal

/-- Moves trailing zeros of the digits into the exponent, at most `fuel` of them. -/
def strip : Nat → Decimal → Decimal
  | 0, d => d
  | fuel + 1, d =>
    if d.digits % 10 = 0 then strip fuel ⟨d.digits / 10, d.exponent + 1⟩ else d

end Decimal

namespace Double

/-- The numbers that read back as a finite number, as integers in units of `2 ^ exponent`: the
number itself, the ends of the interval, and whether the ends belong to it. -/
structure Neighbourhood where
  value : Nat
  low : Nat
  high : Nat
  closed : Bool
  exponent : Int

/-- The interval that rounds to `x`. Below a power of two the neighbours are twice as dense. -/
def neighbourhood (x : Double) : Neighbourhood :=
  let m := x.parts.1
  let q := x.parts.2
  let gap := if m = twoPow 52 ∧ -1074 < q then 1 else 2
  ⟨4 * m, 4 * m - gap, 4 * m + 2, m % 2 = 0, q - 2⟩

/-- Compares `n * 2 ^ q` with `d * 10 ^ p`. -/
def compareScaled (n : Nat) (q : Int) (d : Nat) (p : Int) : Ordering :=
  compare (n * twoPow q.toNat * tenPow (-p).toNat) (d * tenPow p.toNat * twoPow (-q).toNat)

/-- The integer part of `n * 2 ^ q / 10 ^ p`. -/
def floorScaled (n : Nat) (q : Int) (p : Int) : Nat :=
  n * twoPow q.toNat * tenPow (-p).toNat / (tenPow p.toNat * twoPow (-q).toNat)

/-- Whether `d * 10 ^ p` reads back as the number at the centre of the interval. -/
def Neighbourhood.admits (i : Neighbourhood) (d : Nat) (p : Int) : Bool :=
  let above := compareScaled i.low i.exponent d p
  let below := compareScaled i.high i.exponent d p
  (above == .lt || (i.closed && above == .eq)) && (below == .gt || (i.closed && below == .eq))

/-- The neighbour on the grid of multiples of `10 ^ p` that reads back as the number, if one does;
of two the nearer, and of two equally near the upper. -/
def Neighbourhood.onGrid? (i : Neighbourhood) (p : Int) : Option Nat :=
  let below := floorScaled i.value i.exponent p
  match i.admits below p, i.admits (below + 1) p with
  | false, false => none
  | true, false => some below
  | false, true => some (below + 1)
  | true, true =>
    if compareScaled (2 * i.value) i.exponent (2 * below + 1) p == .lt then some below
    else some (below + 1)

/-- The first grid, from `10 ^ p` downwards, with a neighbour that reads back. -/
def Neighbourhood.search (i : Neighbourhood) : Nat → Int → Decimal
  | 0, p => ⟨floorScaled i.value i.exponent p, p⟩
  | fuel + 1, p =>
    match i.onGrid? p with
    | some d => ⟨d, p⟩
    | none => i.search fuel (p - 1)

/-- The greatest `p` with `10 ^ p` at most the value: an estimate from the binary exponent, which is
at most one off, and a comparison. -/
def leadingExponent (i : Neighbourhood) : Int :=
  let estimate := ((i.value.log2 : Int) + i.exponent) * 30103 / 100000
  if compareScaled i.value i.exponent 1 (estimate + 1) != .lt then estimate + 1
  else if compareScaled i.value i.exponent 1 estimate != .lt then estimate
  else estimate - 1

/-- The shortest decimal that reads back as a finite number other than zero, without its sign. -/
def shortest (x : Double) : Decimal :=
  let i := x.neighbourhood
  (i.search 17 (leadingExponent i)).strip 20

/-- Which leading exponents are written positionally, from `lowest` to below `limit`. -/
structure Layout where
  lowest : Int
  limit : Int

/-- Numbers from `1e-4` to below `1e16` are written positionally. -/
def Layout.plain : Layout := ⟨-4, 16⟩

/-- Text of a decimal in a layout. Positional text keeps at least one fractional digit; exponents
have neither a plus sign nor padding. -/
def Layout.text (layout : Layout) (d : Decimal) : String :=
  let ds := (Nat.repr d.digits).toList
  let lead := d.exponent + ds.length - 1
  let chars :=
    if lead < layout.lowest ∨ layout.limit ≤ lead then
      let tail := ds.drop 1
      ds.take 1 ++ (if tail.isEmpty then [] else '.' :: tail) ++ 'e' :: (toString lead).toList
    else if 0 ≤ d.exponent then
      ds ++ List.replicate d.exponent.toNat '0' ++ ['.', '0']
    else if 0 ≤ lead then
      ds.take (lead.toNat + 1) ++ '.' :: ds.drop (lead.toNat + 1)
    else
      ['0', '.'] ++ List.replicate (-lead - 1).toNat '0' ++ ds
  String.ofList chars

/-- Text of a number: its shortest decimal, or the name of a NaN or an infinity. -/
def text (x : Double) : String :=
  if x.isNaN then "NaN"
  else
    let body :=
      if x.isInfinite then "inf"
      else if x.magnitude = 0 then "0.0"
      else Layout.plain.text x.shortest
    if x.isNegative then "-" ++ body else body

end Double

end QueryPlanner
