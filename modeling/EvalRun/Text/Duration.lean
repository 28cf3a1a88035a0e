import EvalRun.Binary64.Decimal

/-! # Text.Duration — how a span of time is shown

    A span from one second on is shown in seconds, with the thousandths that
    are left over and no zeros at their end; a shorter one is shown in
    milliseconds. No time at all is shown in the finest unit.
-/

namespace EvalRun.Text

/-- Thousandths as digits behind a point, without zeros at their end. -/
def thousandths (n : Nat) : List Char :=
  let digits := (digitsOf (1000 + n)).drop 1
  let kept := (digits.reverse.dropWhile (· = '0')).reverse
  if kept.isEmpty then [] else '.' :: kept

/-- A span of milliseconds. -/
def duration (milliseconds : Nat) : String :=
  if milliseconds = 0 then "0ns"
  else if milliseconds < 1000 then toString milliseconds ++ "ms"
  else toString (milliseconds / 1000) ++ String.ofList (thousandths (milliseconds % 1000)) ++ "s"

end EvalRun.Text
