import EvalRun.Binary64.Basic

/-! # Binary64.Rounding — the nearest double of an exact quotient

    Every arithmetic operation computes its exact result as a quotient of two
    natural numbers, in units of `2 ^ -1074`, and rounds it once: to the
    nearest double, and halfway between two of them to the one with the even
    magnitude.

    The magnitude of the result needs no case for subnormal numbers. With `k`
    the number of bits that the quotient has beyond 53, the rounded quotient
    `m` in steps of `2 ^ k` gives the magnitude `k * 2 ^ 52 + m`: a carry out
    of `m` moves into the exponent by itself.
-/

namespace EvalRun

/-- The quotient rounded to the nearest integer, a half to the even one. -/
def roundHalfEven (n d : Nat) : Nat :=
  let q := n / d
  let r := n % d
  if 2 * r < d then q
  else if d < 2 * r then q + 1
  else q + q % 2

namespace Binary64

/-- The magnitude of the double nearest to `n / d` units. Beyond the largest
    finite number it is infinity. -/
def nearestMagnitude (n d : Nat) : Nat :=
  let k := Nat.log2 (n / d) - 52
  min infinityMagnitude (k * binadeSize + roundHalfEven n (d * Nat.pow 2 k))

theorem nearestMagnitude_le (n d : Nat) : nearestMagnitude n d ≤ infinityMagnitude :=
  Nat.min_le_left _ _

/-- The double nearest to `n / d` units of `2 ^ -1074`, with the given sign. -/
def nearest (negative : Bool) (n d : Nat) : Binary64 :=
  ⟨negative, nearestMagnitude n d,
    Nat.lt_of_le_of_lt (nearestMagnitude_le n d) (by decide)⟩

/-- How many units make one. -/
def unitsPerOne : Nat := Nat.pow 2 1074

/-- The double nearest to a natural number. -/
def ofNat (n : Nat) : Binary64 := nearest false (n * unitsPerOne) 1

/-! ### Arithmetic -/

/-- A NaN made quiet: the top bit of its fraction is set. -/
def quiet (x : Binary64) : Binary64 :=
  if x.isNaN then
    if x.magnitude / quietWeight % 2 = 0 then ofBits (x.toBits ||| .ofNat quietWeight) else x
  else x

/-- The rounded sum. An operand that is a NaN is the result, opposite
    infinities give the negative NaN, and an exact zero is `-0` only if both
    operands are negative zeros. -/
def add (x y : Binary64) : Binary64 :=
  if x.isNaN then x.quiet
  else if y.isNaN then y.quiet
  else if x.isInfinite then
    if y.isInfinite && x.negative != y.negative then quietNaN true else x
  else if y.isInfinite then y
  else
    let sum := x.signedUnits + y.signedUnits
    if sum = 0 then signedZero (x.negative && y.negative)
    else nearest (decide (sum < 0)) sum.natAbs 1

/-- The rounded product of two finite numbers, sign apart. -/
def timesFinite (x y : Binary64) : Binary64 :=
  nearest false (x.units * y.units) unitsPerOne

/-- The rounded quotient of two finite numbers, sign apart. -/
def dividedByFinite (x y : Binary64) : Binary64 :=
  nearest false (x.units * unitsPerOne) y.units

end Binary64

end EvalRun
