import EvalRun.Binary64.Rounding

/-! # Binary64.Decimal — doubles from decimals and the shortest decimal of a double

    A decimal is a coefficient and a power of ten. Both directions between
    decimals and doubles live here:

    * **Reading** rounds the exact value of the decimal once.
    * **Writing** chooses the fewest digits that read back as the same double,
      and of those the closest to it. Where two are equally close the format
      decides, with `Tie`.

    The search asks the reader itself whether a candidate reads back, so what
    is chosen cannot disagree with what is read.
-/

namespace EvalRun

/-! ### Decimals -/

/-- The number `coefficient * 10 ^ exponent`. -/
structure Decimal where
  /-- The digits, read as one natural number. -/
  coefficient : Nat
  /-- The power of ten that the last digit counts. -/
  exponent : Int
  deriving DecidableEq, Repr

/-- The decimal digits of a natural number; zero has one digit. -/
def digitsOf (n : Nat) : List Char := Nat.toDigits 10 n

/-- The number of decimal digits. -/
def digitCount (n : Nat) : Nat := (digitsOf n).length

/-- The value of a run of decimal digits after those already read. -/
def readDigits (value : Nat) : List Char → Nat
  | [] => value
  | c :: rest => readDigits (value * 10 + (c.toNat - '0'.toNat)) rest

namespace Decimal

/-- The decimal as a quotient of natural numbers. -/
def ratio (d : Decimal) : Nat × Nat :=
  if 0 ≤ d.exponent then (d.coefficient * Nat.pow 10 d.exponent.toNat, 1)
  else (d.coefficient, Nat.pow 10 (-d.exponent).toNat)

/-- The same value with at most `fuel` trailing zeros of the coefficient moved
    into the exponent. -/
def trimWith : Nat → Decimal → Decimal
  | 0, d => d
  | fuel + 1, d =>
    if d.coefficient ≠ 0 ∧ d.coefficient % 10 = 0 then
      trimWith fuel ⟨d.coefficient / 10, d.exponent + 1⟩
    else d

/-- The same value without trailing zeros in the coefficient. -/
def trim (d : Decimal) : Decimal := trimWith (digitCount d.coefficient) d

/-- The power of ten of the first digit. -/
def leadingExponent (d : Decimal) : Int := d.exponent + digitCount d.coefficient - 1

end Decimal

namespace Binary64

/-! ### Reading -/

/-- The double nearest to a decimal. Decimals of `10 ^ 309` and more round to
    infinity and those below `10 ^ -324` to zero, whatever their digits; they
    are settled without writing the power out. -/
def ofDecimal (negative : Bool) (d : Decimal) : Binary64 :=
  if d.coefficient = 0 then signedZero negative
  else if 309 ≤ d.leadingExponent then signedInfinity negative
  else if d.leadingExponent < -324 then signedZero negative
  else nearest negative (d.ratio.1 * unitsPerOne) d.ratio.2

/-! ### Writing -/

/-- What to do where two decimals of one length are equally close. -/
inductive Tie where
  /-- Take the one farther from zero. -/
  | away
  /-- Take the one with the even last digit. -/
  | even
  deriving DecidableEq, Repr

/-- The power of ten of the first digit of a finite number other than zero.
    One unit exceeds `10 ^ -324`, so the scaled number below is never zero. -/
def leadingExponent (x : Binary64) : Int :=
  digitCount (x.units * Nat.pow 10 324 / unitsPerOne) - 325

/-- A double without its sign. -/
def abs (x : Binary64) : Binary64 := x.withSign false

/-- A decimal reads back as the number whose digits are sought. -/
def readsBack (x : Binary64) (d : Decimal) : Bool := ofDecimal false d = x.abs

/-- The multiple of `10 ^ exponent` nearest to a finite number, among its two
    neighbours on that grid that read back. -/
def nearestOnGrid? (tie : Tie) (x : Binary64) (exponent : Int) : Option Decimal :=
  let n := if 0 ≤ exponent then x.units else x.units * Nat.pow 10 (-exponent).toNat
  let d := if 0 ≤ exponent then unitsPerOne * Nat.pow 10 exponent.toNat else unitsPerOne
  let below : Decimal := ⟨n / d, exponent⟩
  let above : Decimal := ⟨n / d + 1, exponent⟩
  let rest := 2 * (n % d)
  let preferAbove :=
    d < rest ∨ d = rest ∧ (tie = .away ∨ below.coefficient % 2 = 1)
  match readsBack x below, readsBack x above with
  | true, true => some (if preferAbove then above else below)
  | true, false => some below
  | false, true => some above
  | false, false => none

/-- The first grid with a decimal that reads back, from the grid of
    `10 ^ exponent` through `steps` finer ones. -/
def coarsestOnGrids? (tie : Tie) (x : Binary64) (exponent : Int) : Nat → Option Decimal
  | 0 => none
  | steps + 1 =>
    match nearestOnGrid? tie x exponent with
    | some d => some d
    | none => coarsestOnGrids? tie x (exponent - 1) steps

/-- The exact decimal of a finite number: `2 ^ -1074` is `5 ^ 1074` times
    `10 ^ -1074`. -/
def exactDecimal (x : Binary64) : Decimal := ⟨x.units * Nat.pow 5 1074, -1074⟩

/-- The shortest decimal that reads back as a finite number, sign apart.
    Seventeen digits suffice for every double; the exact decimal stands behind
    the search so that the result reads back without that fact. -/
def shortest (tie : Tie) (x : Binary64) : Decimal :=
  if x.isZero then ⟨0, 0⟩
  else ((coarsestOnGrids? tie x x.leadingExponent 17).getD x.exactDecimal).trim

end Binary64

end EvalRun
