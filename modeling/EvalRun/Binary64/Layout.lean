import EvalRun.Binary64.Decimal

/-! # Binary64.Layout — how the digits of a number are set out

    Three outputs write doubles, and they agree on the digits and differ in
    their layout. A `NumberLayout` holds what one of them decides; `render`
    follows it.

    * **Positional** writing puts the point among the digits and fills up with
      zeros on either side.
    * **Scientific** writing puts the point after the first digit and appends
      the power of ten with its sign.
-/

namespace EvalRun

/-- The decisions of one output format for doubles. -/
structure NumberLayout where
  /-- Which of two equally close digit strings is written. -/
  tie : Binary64.Tie
  /-- Integral numbers keep a `.0`. -/
  pointZero : Bool
  /-- The exponents of the first digit that are written positionally, from the
      first up to but excluding the second; without them all are. -/
  positional : Option (Int × Int)
  /-- The text of every NaN. -/
  nanText : String
  deriving Repr

namespace Decimal

/-- The digits with the point in its place, as an integer part and a
    fractional part. -/
def parts (d : Decimal) : List Char × List Char :=
  let digits := digitsOf d.coefficient
  if 0 ≤ d.exponent then (digits ++ List.replicate d.exponent.toNat '0', [])
  else
    let places := (-d.exponent).toNat
    if places < digits.length then digits.splitAt (digits.length - places)
    else (['0'], List.replicate (places - digits.length) '0' ++ digits)

/-- Positional notation. -/
def positional (pointZero : Bool) (d : Decimal) : List Char :=
  match d.parts with
  | (whole, []) => if pointZero then whole ++ ['.', '0'] else whole
  | (whole, fraction) => whole ++ '.' :: fraction

/-- Scientific notation, with a sign on every exponent. -/
def scientific (d : Decimal) : List Char :=
  let mantissa := match digitsOf d.coefficient with
    | first :: second :: rest => first :: '.' :: second :: rest
    | short => short
  let e := d.leadingExponent
  mantissa ++ 'e' :: (if e < 0 then '-' else '+') :: digitsOf e.natAbs

end Decimal

namespace NumberLayout

/-- The text of the absolute value of a finite number. -/
def renderFinite (layout : NumberLayout) (x : Binary64) : List Char :=
  let d := x.shortest layout.tie
  match layout.positional with
  | none => d.positional layout.pointZero
  | some (first, last) =>
    if x.isZero ∨ first ≤ d.leadingExponent ∧ d.leadingExponent < last then
      d.positional layout.pointZero
    else d.scientific

/-- The text of a double. The sign of a NaN is not written. -/
def render (layout : NumberLayout) (x : Binary64) : String :=
  if x.isNaN then layout.nanText
  else
    let sign := if x.negative then ['-'] else []
    if x.isInfinite then String.ofList (sign ++ ['i', 'n', 'f'])
    else String.ofList (sign ++ layout.renderFinite x)

/-- Plain text: never an exponent, and no point on an integral number. -/
def plain : NumberLayout := ⟨.away, false, none, "NaN"⟩

end NumberLayout

end EvalRun
