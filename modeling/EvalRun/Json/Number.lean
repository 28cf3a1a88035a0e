import EvalRun.Binary64.Layout

/-! # Json.Number — number literals and the numbers they denote

    A literal without a point and without an exponent is an integer while it
    fits 64 bits. Every other literal is a double, found in two steps that
    each may round:

    * **Accumulating.** Digits are collected into a 64-bit integer. From the
      first integer digit that no longer fits, integer digits only count
      towards the power of ten; from the first fraction digit that no longer
      fits, fraction digits are dropped.
    * **Scaling.** The integer is rounded to a double, which is multiplied or
      divided by the double nearest to the power of ten.

    So the double of a long literal need not be the one nearest to it.
-/

namespace EvalRun.Json

/-- A number as it is written: its digits before and behind the point and its
    power of ten. -/
structure NumberLiteral where
  /-- Written with a minus sign. -/
  negative : Bool
  /-- The digits before the point. -/
  whole : List Char
  /-- The digits behind the point, empty without a point. -/
  fraction : List Char
  /-- The exponent, if written: whether it has a minus sign, and its digits. -/
  exponent : Option (Bool × List Char)
  deriving DecidableEq, Repr

/-- The number that a literal denotes. -/
inductive Number where
  /-- An integer from zero to `2 ^ 64 - 1`. -/
  | natural (n : Nat)
  /-- The integer `-n` below zero, down to `-2 ^ 63`. -/
  | negative (n : Nat)
  /-- Any other number. -/
  | float (x : Binary64)
  deriving DecidableEq, Repr

/-! ### Accumulating digits -/

/-- The largest integer that digits are collected in. -/
def maxSignificand : Nat := 0xFFFFFFFFFFFFFFFF

/-- The integer with one more digit, if it still fits. -/
def pushDigit? (significand : Nat) (c : Char) : Option Nat :=
  let next := significand * 10 + (c.toNat - '0'.toNat)
  if next ≤ maxSignificand then some next else none

/-- Collects integer digits. The second number counts the digits left out:
    the first that does not fit and all behind it. -/
def collectWhole (significand : Nat) : List Char → Nat × Nat
  | [] => (significand, 0)
  | c :: rest =>
    match pushDigit? significand c with
    | some next => collectWhole next rest
    | none => (significand, rest.length + 1)

/-- Collects fraction digits. The second number counts the digits taken in. -/
def collectFraction (significand taken : Nat) : List Char → Nat × Nat
  | [] => (significand, taken)
  | c :: rest =>
    match pushDigit? significand c with
    | some next => collectFraction next (taken + 1) rest
    | none => (significand, taken)

/-! ### Scaling -/

/-- The largest power of ten that is a double. -/
def maxPower : Nat := 308

/-- The double nearest to a power of ten. -/
def powerOfTen (k : Nat) : Binary64 := Binary64.ofNat (Nat.pow 10 k)

/-- A double divided by `10 ^ k`, in steps of at most `10 ^ 308`. -/
def divideDown (x : Binary64) (k : Nat) : Nat → Binary64
  | 0 => x
  | fuel + 1 =>
    if x.isZero then x
    else if k ≤ maxPower then x.dividedByFinite (powerOfTen k)
    else divideDown (x.dividedByFinite (powerOfTen maxPower)) (k - maxPower) fuel

/-- The double of `significand * 10 ^ exponent`, or nothing if it is too
    large. -/
def scale? (significand : Nat) (exponent : Int) : Option Binary64 :=
  let x := Binary64.ofNat significand
  if 0 ≤ exponent then
    if exponent.toNat ≤ maxPower then
      let scaled := x.timesFinite (powerOfTen exponent.toNat)
      if scaled.isInfinite then none else some scaled
    else if x.isZero then some x else none
  else
    let k := (-exponent).toNat
    some (divideDown x k (k / maxPower + 1))

/-! ### Literals -/

/-- The largest exponent that is counted with; digits are read as 32-bit
    signed integers. -/
def maxExponent : Nat := 0x7FFFFFFF

/-- The exponent kept within the 32-bit signed integers. -/
def saturateExponent (e : Int) : Int := max (-0x80000000) (min e maxExponent)

namespace NumberLiteral

/-- The double of a literal, sign apart, or nothing if it is too large. An
    exponent beyond 32 bits makes the number too large if it is positive, and
    zero otherwise; a zero stays zero. -/
def magnitude? (l : NumberLiteral) : Option Binary64 :=
  let (whole, dropped) := collectWhole 0 l.whole
  let (significand, taken) := collectFraction whole 0 l.fraction
  let point : Int := dropped - taken
  match l.exponent with
  | none => scale? significand point
  | some (minus, digits) =>
    let e := readDigits 0 digits
    if maxExponent < e then
      if significand ≠ 0 ∧ ¬minus then none else some Binary64.zero
    else scale? significand (saturateExponent (if minus then point - e else point + e))

/-- The number of a literal, or nothing if it is too large. -/
def number? (l : NumberLiteral) : Option Number :=
  let asFloat := l.magnitude?.map fun x => .float (x.withSign l.negative)
  if l.fraction.isEmpty && l.exponent.isNone then
    let n := readDigits 0 l.whole
    if l.negative then
      if 0 < n ∧ n ≤ 0x8000000000000000 then some (.negative n) else asFloat
    else if n ≤ maxSignificand then some (.natural n) else asFloat
  else asFloat

end NumberLiteral

/-! ### Text -/

/-- How doubles are written: positionally from `0.00001` up to `10 ^ 16`, with
    a point in every positional number. -/
def numberLayout : NumberLayout := ⟨.even, true, some (-5, 16), "null"⟩

namespace Number

/-- The text of a number. -/
def text : Number → String
  | .natural n => String.ofList (digitsOf n)
  | .negative n => String.ofList ('-' :: digitsOf n)
  | .float x => numberLayout.render x

/-- The double nearest to a number. -/
def toBinary64 : Number → Binary64
  | .natural n => Binary64.ofNat n
  | .negative n => (Binary64.ofNat n).withSign true
  | .float x => x

end Number

end EvalRun.Json
