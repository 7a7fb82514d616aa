/-!
# Binary floating point numbers, by their bits

A `Double` is a 64-bit word read as a binary floating point number: a sign bit, eleven exponent bits
and fifty-two fraction bits. The word below the sign bit is the *magnitude*; on finite numbers it
grows with the absolute value, which makes the total order of these numbers an order of integers.

All arithmetic here is exact arithmetic on naturals followed by one rounding, so every result is a
closed term that can be computed and reasoned about.

* `Double.rank`, `Double.totalCmp` — the total order: negative NaN, negative numbers, `-0`, `+0`,
  positive numbers, positive NaN.
* `Double.numEq` — equality of numbers: NaN differs from itself and the two zeros are equal.
* `Double.roundMagnitude` — the magnitude nearest to `m * 2 ^ q`, ties to even.
* `Double.ofInt`, `Double.ofDecimal` — correctly rounded conversions.
* `Double.add`, `Double.mul`, `Double.div` — correctly rounded arithmetic.
-/

namespace QueryPlanner

/-- A 64-bit floating point number, given by its bits. -/
structure Double where
  bits : UInt64
  deriving DecidableEq, Inhabited

namespace Double

/-- A power of two. -/
def twoPow (n : Nat) : Nat := Nat.pow 2 n

/-- A power of ten. -/
def tenPow (n : Nat) : Nat := Nat.pow 10 n

/-! ### Fields -/

/-- The bits below the sign bit. -/
def magnitude (x : Double) : Nat := x.bits.toNat % twoPow 63

/-- Whether the sign bit is set. -/
def isNegative (x : Double) : Bool := decide (twoPow 63 ≤ x.bits.toNat)

/-- The magnitude of infinity; NaNs lie above it. -/
def infinityMagnitude : Nat := 2047 * twoPow 52

/-- The number with a given sign and magnitude. -/
def ofMagnitude (negative : Bool) (magnitude : Nat) : Double :=
  ⟨UInt64.ofNat (if negative then twoPow 63 + magnitude else magnitude)⟩

/-- Whether the bits are those of a NaN. -/
def isNaN (x : Double) : Bool := decide (infinityMagnitude < x.magnitude)

/-- Whether a number is one of the infinities. -/
def isInfinite (x : Double) : Bool := x.magnitude == infinityMagnitude

/-- Whether a number is neither an infinity nor a NaN. -/
def isFinite (x : Double) : Bool := decide (x.magnitude < infinityMagnitude)

/-- Significand and exponent of a finite number: its absolute value is `m * 2 ^ q`. -/
def parts (x : Double) : Nat × Int :=
  let field : Nat := x.magnitude / twoPow 52
  let fraction : Nat := x.magnitude % twoPow 52
  if field = 0 then (fraction, -1074) else (twoPow 52 + fraction, (field : Int) - 1075)

/-! ### Order and equality -/

/-- Position in the total order. Negative numbers come below all others. -/
def rank (x : Double) : Int :=
  if x.isNegative then -(x.magnitude : Int) - 1 else x.magnitude

/-- The total order of floating point numbers. -/
def totalCmp (x y : Double) : Ordering := compare x.rank y.rank

/-- Equality as numbers: NaN equals nothing, and the two zeros are equal. -/
def numEq (x y : Double) : Bool :=
  !x.isNaN && !y.isNaN && (x.bits == y.bits || (x.magnitude == 0 && y.magnitude == 0))

/-! ### Rounding -/

/-- The integer nearest to `n / d`; a half goes to the even neighbour. -/
def roundHalfEven (n d : Nat) : Nat :=
  let q := n / d
  let r := n % d
  if 2 * r < d then q
  else if d < 2 * r then q + 1
  else if q % 2 = 0 then q else q + 1

/-- The magnitude nearest to `m * 2 ^ q`. A significand that rounds up to the next power of two
carries into the exponent field by itself, and values past the largest finite one give infinity. -/
def roundMagnitude (m : Nat) (q : Int) : Nat :=
  if m = 0 then 0
  else
    let e : Int := max ((m.log2 : Int) + q - 52) (-1074)
    let significand := if e ≤ q then m * twoPow (q - e).toNat
      else roundHalfEven m (twoPow (e - q).toNat)
    min ((e + 1074).toNat * twoPow 52 + significand) infinityMagnitude

/-- The number nearest to `m * 2 ^ q`, with a sign. -/
def ofParts (negative : Bool) (m : Nat) (q : Int) : Double :=
  ofMagnitude negative (roundMagnitude m q)

/-- The number nearest to an integer. -/
def ofInt (n : Int) : Double := ofParts (decide (n < 0)) n.natAbs 0

/-- The number nearest to `n / d * 2 ^ q`, with a sign. The quotient is taken with enough bits, and
a last bit records whether anything was cut off, so that one rounding is right. -/
def ofQuotient (negative : Bool) (n d : Nat) (q : Int) : Double :=
  let shift : Nat := d.log2 + 64
  let quotient := n * twoPow shift / d
  let inexact := if n * twoPow shift % d = 0 then 0 else 1
  ofParts negative (2 * quotient + inexact) (q - shift - 1)

/-- The number nearest to `m * 10 ^ e`. -/
def ofDecimal (negative : Bool) (m : Nat) (e : Int) : Double :=
  if 0 ≤ e then ofParts negative (m * tenPow e.toNat) 0
  else ofQuotient negative m (tenPow (-e).toNat) 0

/-! ### Arithmetic -/

/-- The result of an operation that has none. -/
def invalid : Double := ofMagnitude true (infinityMagnitude + twoPow 51)

/-- A NaN operand as it leaves an operation: marked quiet. -/
def quieted (x : Double) : Double := ⟨x.bits ||| UInt64.ofNat (twoPow 51)⟩

/-- The value of a finite number in units of `2 ^ q`, for `q` at most its exponent. -/
def scaled (x : Double) (q : Int) : Int :=
  let n : Int := (x.parts.1 * twoPow (x.parts.2 - q).toNat : Nat)
  if x.isNegative then -n else n

/-- Correctly rounded addition. A NaN operand is kept, and infinities of opposite sign give a NaN
whose sign bit is set. -/
def add (x y : Double) : Double :=
  if x.isNaN then x.quieted
  else if y.isNaN then y.quieted
  else if x.isInfinite then
    if y.isInfinite && x.isNegative != y.isNegative then invalid else x
  else if y.isInfinite then y
  else
    let q := min x.parts.2 y.parts.2
    let sum := x.scaled q + y.scaled q
    if sum = 0 then ofMagnitude (x.isNegative && y.isNegative) 0
    else ofParts (decide (sum < 0)) sum.natAbs q

/-- Correctly rounded multiplication. -/
def mul (x y : Double) : Double :=
  let negative := x.isNegative != y.isNegative
  if x.isNaN then x.quieted
  else if y.isNaN then y.quieted
  else if x.isInfinite || y.isInfinite then
    if x.magnitude == 0 || y.magnitude == 0 then invalid else ofMagnitude negative infinityMagnitude
  else ofParts negative (x.parts.1 * y.parts.1) (x.parts.2 + y.parts.2)

/-- Correctly rounded division. -/
def div (x y : Double) : Double :=
  let negative := x.isNegative != y.isNegative
  if x.isNaN then x.quieted
  else if y.isNaN then y.quieted
  else if x.isInfinite then if y.isInfinite then invalid else ofMagnitude negative infinityMagnitude
  else if y.isInfinite then ofMagnitude negative 0
  else if y.magnitude == 0 then
    if x.magnitude == 0 then invalid else ofMagnitude negative infinityMagnitude
  else ofQuotient negative x.parts.1 y.parts.1 (x.parts.2 - y.parts.2)

/-- The smallest count not below a number, within zero and `2 ^ 64 - 1`; zero for NaN. -/
def ceilCount (x : Double) : UInt64 :=
  if x.isNaN || x.isNegative then 0
  else
    let n : Nat :=
      if 0 ≤ x.parts.2 then x.parts.1 * twoPow x.parts.2.toNat
      else (x.parts.1 + (twoPow (-x.parts.2).toNat - 1)) / twoPow (-x.parts.2).toNat
    UInt64.ofNat (min n (twoPow 64 - 1))

/-- The number nearest to a count. -/
def ofNat (n : Nat) : Double := ofParts false n 0

/-- The positive zero. -/
def zero : Double := ⟨0⟩

/-- Whether a number comes before another in the total order. -/
def before (x y : Double) : Bool := x.totalCmp y == .lt

end Double

end QueryPlanner
