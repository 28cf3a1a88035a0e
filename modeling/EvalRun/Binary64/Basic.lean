/-! # Binary64 — double precision numbers as exact data

    Scores are IEEE 754 double precision numbers, and three different orders
    of them matter to a run: the comparison that merges hits, the total order
    that ranks them, and identity of the bit pattern. All three are read off
    one representation here: a sign and a 63-bit magnitude.

    Design decisions:
    * The magnitude is the bit pattern without the sign. On finite numbers it
      grows with the absolute value, infinity follows the largest of them, and
      every larger magnitude is a NaN.
    * A finite number is an integer multiple of `2 ^ -1074`. That integer,
      `units`, is what exact arithmetic computes with.
    * Equality is identity of bits, so the two zeros differ and a NaN equals
      itself. The comparison of arithmetic is `lt`.
-/

namespace EvalRun

/-- A double precision number: its sign and its bit pattern without the sign. -/
structure Binary64 where
  /-- Set for a number below zero, for `-0`, and for a NaN with the sign bit. -/
  negative : Bool
  /-- The low 63 bits: 11 bits of exponent above 52 bits of fraction. -/
  magnitude : Nat
  /-- A magnitude has 63 bits. -/
  magnitude_lt : magnitude < 0x8000000000000000
  deriving DecidableEq, Repr

namespace Binary64

/-! ### Special values -/

/-- The weight of the sign bit, above the bits of the magnitude. -/
def signWeight : Nat := 0x8000000000000000

/-- The number of magnitudes in a binade, one for every fraction. -/
def binadeSize : Nat := 0x10000000000000

/-- The magnitude of infinity: all bits of the exponent set, no fraction. -/
def infinityMagnitude : Nat := 2047 * binadeSize

/-- The weight of the top bit of the fraction, which makes a NaN quiet. -/
def quietWeight : Nat := 0x8000000000000

/-- The zero with the given sign. -/
def signedZero (negative : Bool) : Binary64 := ⟨negative, 0, by decide⟩

/-- The infinity with the given sign. -/
def signedInfinity (negative : Bool) : Binary64 := ⟨negative, infinityMagnitude, by decide⟩

/-- The quiet NaN with the given sign and no payload. -/
def quietNaN (negative : Bool) : Binary64 :=
  ⟨negative, infinityMagnitude + quietWeight, by decide⟩

/-- Positive zero. -/
def zero : Binary64 := signedZero false

instance : Inhabited Binary64 := ⟨zero⟩

/-! ### Classes -/

/-- A NaN lies above infinity. -/
def isNaN (x : Binary64) : Bool := infinityMagnitude < x.magnitude

/-- One of the two infinities. -/
def isInfinite (x : Binary64) : Bool := x.magnitude = infinityMagnitude

/-- Neither a NaN nor an infinity. -/
def isFinite (x : Binary64) : Bool := x.magnitude < infinityMagnitude

/-- One of the two zeros. -/
def isZero (x : Binary64) : Bool := x.magnitude = 0

/-! ### Orders -/

/-- The position of a number that is not a NaN on the number line, with the
    two zeros at one place. -/
def lineKey (x : Binary64) : Int := if x.negative then -x.magnitude else x.magnitude

/-- Arithmetic comparison: false as soon as a NaN takes part, and the two
    zeros are equal. -/
def lt (x y : Binary64) : Bool := !x.isNaN && !y.isNaN && x.lineKey < y.lineKey

/-- The position of a number in the total order: negative NaNs, the negative
    numbers, `-0`, `0`, the positive numbers, positive NaNs. -/
def totalKey (x : Binary64) : Int := if x.negative then -1 - x.magnitude else x.magnitude

/-- Two numbers at one place of the total order have the same bits. -/
theorem totalKey_injective {x y : Binary64} (h : x.totalKey = y.totalKey) : x = y := by
  obtain ⟨nx, mx, _⟩ := x
  obtain ⟨ny, my, _⟩ := y
  simp only [totalKey] at h
  cases nx <;> cases ny <;> simp at h ⊢ <;> omega

/-- Arithmetic comparison is irreflexive. -/
theorem lt_irrefl (x : Binary64) : x.lt x = false := by simp [lt]

/-- Arithmetic comparison is transitive. -/
theorem lt_trans {x y z : Binary64} (hxy : x.lt y = true) (hyz : y.lt z = true) :
    x.lt z = true := by
  simp only [lt, Bool.and_eq_true, decide_eq_true_eq] at *
  exact ⟨⟨hxy.1.1, hyz.1.2⟩, by omega⟩

/-! ### Exact value -/

/-- The absolute value of a finite number in units of `2 ^ -1074`. The lowest
    two binades share the unit; from there each binade doubles its step. -/
def units (x : Binary64) : Nat :=
  if x.magnitude < binadeSize then x.magnitude
  else (binadeSize + x.magnitude % binadeSize) * Nat.pow 2 (x.magnitude / binadeSize - 1)

/-- The value of a finite number in units of `2 ^ -1074`, with its sign. -/
def signedUnits (x : Binary64) : Int := if x.negative then -x.units else x.units

/-- The number with its sign replaced. -/
def withSign (x : Binary64) (negative : Bool) : Binary64 := { x with negative }

/-! ### Bit patterns -/

/-- The number with the given bit pattern. -/
def ofBits (bits : UInt64) : Binary64 :=
  ⟨signWeight ≤ bits.toNat, bits.toNat % signWeight, Nat.mod_lt _ (by decide)⟩

/-- The bit pattern of a number. -/
def toBits (x : Binary64) : UInt64 :=
  UInt64.ofNat ((if x.negative then signWeight else 0) + x.magnitude)

end Binary64

end EvalRun
