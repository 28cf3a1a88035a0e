import EvalRun.Proofs.Binary64.Nearest

/-! # Proofs.Binary64.Values — what the parts of a double stand for

    A double is stored as a sign and a magnitude. What these stand for is a
    number, and a pattern of bits:

    * **Value.** The exact value grows with the magnitude (`units_lt_units_iff`).
      With its sign, it grows with the place on the number line
      (`signedUnits_lt_signedUnits_iff`).
    * **Not zero.** A quotient of a unit or more is not rounded to zero
      (`isZero_nearest`), and a whole number not below one
      (`unitsPerOne_le_units_ofNat`).
    * **Bits.** Every pattern of 64 bits is that of one number (`toBits_ofBits`,
      `toBits_inj`), NaNs included.
-/

namespace EvalRun

namespace Binary64

variable {x y : Binary64} {n d : Nat}

/-! ### Values -/

/-- The exact value grows with the magnitude, within a binade and from one to
    the next. -/
theorem units_lt_units (h : x.magnitude < y.magnitude) : x.units < y.units := by
  have hbinade : binadeSize = 2 ^ 52 := rfl
  by_cases hlowY : y.magnitude < binadeSize
  · rw [units_of_lt (Nat.lt_trans h hlowY), units_of_lt hlowY]
    exact h
  · have hhighY : binadeSize ≤ y.magnitude := Nat.not_lt.1 hlowY
    rw [units_of_le hhighY]
    show x.units < (binadeSize + y.magnitude % binadeSize) * 2 ^ (y.magnitude / binadeSize - 1)
    have hfirst : binadeSize * 2 ^ (y.magnitude / binadeSize - 1) ≤
        (binadeSize + y.magnitude % binadeSize) * 2 ^ (y.magnitude / binadeSize - 1) :=
      Nat.mul_le_mul_right _ (Nat.le_add_right _ _)
    by_cases hlowX : x.magnitude < binadeSize
    · -- the lowest binade ends where the next begins
      rw [units_of_lt hlowX]
      apply Nat.lt_of_lt_of_le hlowX
      exact Nat.le_trans (Nat.le_mul_of_pos_right _ (Nat.two_pow_pos _)) hfirst
    · rw [units_of_le (Nat.not_lt.1 hlowX)]
      show (binadeSize + x.magnitude % binadeSize) * 2 ^ (x.magnitude / binadeSize - 1) < _
      rw [hbinade] at *
      by_cases hsame : x.magnitude / 2 ^ 52 = y.magnitude / 2 ^ 52
      · -- within a binade the fractions decide
        rw [hsame]
        apply Nat.mul_lt_mul_of_pos_right _ (Nat.two_pow_pos _)
        omega
      · -- a lower binade ends below the first number of a higher one
        have hfraction : x.magnitude % 2 ^ 52 < 2 ^ 52 := Nat.mod_lt _ (by decide)
        apply Nat.lt_of_lt_of_le _ hfirst
        calc (2 ^ 52 + x.magnitude % 2 ^ 52) * 2 ^ (x.magnitude / 2 ^ 52 - 1)
            < 2 ^ 53 * 2 ^ (x.magnitude / 2 ^ 52 - 1) :=
              Nat.mul_lt_mul_of_pos_right (by omega) (Nat.two_pow_pos _)
          _ = 2 ^ 52 * 2 ^ (x.magnitude / 2 ^ 52 - 1 + 1) := by
              rw [← Nat.pow_add, ← Nat.pow_add]
              congr 1
              omega
          _ ≤ 2 ^ 52 * 2 ^ (y.magnitude / 2 ^ 52 - 1) :=
              Nat.mul_le_mul_left _ (Nat.pow_le_pow_right (by decide) (by omega))

theorem units_lt_units_iff : x.units < y.units ↔ x.magnitude < y.magnitude := by
  constructor
  · intro h
    rcases Nat.lt_trichotomy x.magnitude y.magnitude with hlt | heq | hgt
    · exact hlt
    · have hunits : x.units = y.units := by
        unfold units
        rw [heq]
      omega
    · have hunits := units_lt_units hgt
      omega
  · exact units_lt_units

theorem units_le_units (h : x.magnitude ≤ y.magnitude) : x.units ≤ y.units := by
  apply Nat.not_lt.1
  intro hlt
  have := units_lt_units_iff.1 hlt
  omega

theorem signedUnits_lt_signedUnits_iff :
    x.signedUnits < y.signedUnits ↔ x.lineKey < y.lineKey := by
  have hxy : x.units < y.units ↔ x.magnitude < y.magnitude := units_lt_units_iff
  have hyx : y.units < x.units ↔ y.magnitude < x.magnitude := units_lt_units_iff
  -- zero has the value zero, and is the only number that does
  have hzero (z : Binary64) : 0 < z.units ↔ 0 < z.magnitude :=
    units_lt_units_iff (x := zero) (y := z)
  have hx := hzero x
  have hy := hzero y
  unfold signedUnits lineKey
  split <;> split <;> omega

/-! ### Doubles from one on -/

theorem unitsPerOne_pos : 0 < unitsPerOne := by
  obtain ⟨k, -, hunit⟩ := exists_unitsPerOne_eq
  rw [hunit]
  exact Nat.two_pow_pos k

theorem nearestMagnitude_eq (n d : Nat) :
    nearestMagnitude n d = min infinityMagnitude (stepExponent n d * binadeSize + inSteps n d) :=
  rfl

/-- A quotient of at least one unit is not rounded to zero. -/
theorem isZero_nearest (negative : Bool) (hd : 0 < d) (h : d ≤ n) :
    (nearest negative n d).isZero = false := by
  have hone : 1 ≤ n / d := (Nat.one_le_div_iff hd).2 h
  have hpos : 0 < stepExponent n d * binadeSize + inSteps n d := by
    by_cases hstep : stepExponent n d = 0
    · have hle : n / (d * 2 ^ stepExponent n d) ≤ inSteps n d := le_roundHalfEven ..
      rw [hstep, Nat.pow_zero, Nat.mul_one] at hle
      omega
    · have hbinade : 0 < stepExponent n d * binadeSize :=
        Nat.mul_pos (Nat.pos_of_ne_zero hstep) (by decide)
      omega
  have hinfinity : 0 < infinityMagnitude := by decide
  apply decide_eq_false
  show nearestMagnitude n d ≠ 0
  rw [nearestMagnitude_eq]
  omega

/-- A positive whole number is not rounded to zero. -/
theorem isZero_ofNat (hn : 0 < n) : (ofNat n).isZero = false :=
  isZero_nearest false Nat.one_pos (Nat.mul_pos hn unitsPerOne_pos)

/-- It is rounded to one or more. -/
theorem unitsPerOne_le_units_ofNat (hn : 0 < n) : unitsPerOne ≤ (ofNat n).units := by
  have hle : unitsPerOne ≤ n * unitsPerOne := Nat.le_mul_of_pos_left _ hn
  have hne : n * unitsPerOne ≠ 0 := by
    have := unitsPerOne_pos
    omega
  have hlog : 1074 ≤ (n * unitsPerOne / 1).log2 := by
    obtain ⟨k, hk, hunit⟩ := exists_unitsPerOne_eq
    rw [Nat.div_one, ← hk, Nat.le_log2 hne]
    calc 2 ^ k = unitsPerOne := hunit.symm
      _ ≤ n * unitsPerOne := hle
  have hstep : 1022 ≤ stepExponent (n * unitsPerOne) 1 := by
    unfold stepExponent
    omega
  have hmagnitude : 1023 * binadeSize ≤ nearestMagnitude (n * unitsPerOne) 1 := by
    have hsteps : 2 ^ 52 ≤ inSteps (n * unitsPerOne) 1 := by
      rcases (inSteps_bounds (n * unitsPerOne) 1).2 with hzero | hnormal
      · omega
      · exact Nat.le_trans hnormal (le_roundHalfEven ..)
    have hbinade : 1022 * binadeSize ≤ stepExponent (n * unitsPerOne) 1 * binadeSize :=
      Nat.mul_le_mul_right _ hstep
    rw [nearestMagnitude_eq]
    unfold infinityMagnitude binadeSize at *
    omega
  have hone : (Binary64.mk false (1023 * binadeSize) (by decide)).units = unitsPerOne := by
    decide +kernel
  rw [← hone]
  exact units_le_units hmagnitude

/-- The product of doubles from one on is not zero. -/
theorem isZero_timesFinite (hx : unitsPerOne ≤ x.units) (hy : unitsPerOne ≤ y.units) :
    (x.timesFinite y).isZero = false := by
  apply isZero_nearest false unitsPerOne_pos
  calc unitsPerOne ≤ x.units := hx
    _ ≤ x.units * y.units := Nat.le_mul_of_pos_right _ (Nat.lt_of_lt_of_le unitsPerOne_pos hy)

/-! ### Bits -/

theorem toNat_toBits (x : Binary64) :
    x.toBits.toNat = (if x.negative then signWeight else 0) + x.magnitude := by
  have hmagnitude := x.magnitude_lt
  unfold toBits
  rw [UInt64.toNat_ofNat']
  apply Nat.mod_eq_of_lt
  unfold signWeight
  split <;> omega

/-- Numbers with the same bits are the same. -/
theorem toBits_inj : x.toBits = y.toBits ↔ x = y := by
  constructor
  · intro h
    have hbits := congrArg UInt64.toNat h
    rw [toNat_toBits, toNat_toBits] at hbits
    obtain ⟨negX, magX, hmagX⟩ := x
    obtain ⟨negY, magY, hmagY⟩ := y
    unfold signWeight at hbits
    cases negX <;> cases negY <;> simp at hbits ⊢ <;> omega
  · intro h
    rw [h]

/-- Every pattern of bits is that of a number. -/
theorem toBits_ofBits (bits : UInt64) : (ofBits bits).toBits = bits := by
  have hlt := bits.toNat_lt
  rw [← UInt64.toNat_inj, toNat_toBits]
  unfold ofBits signWeight
  simp only [decide_eq_true_eq]
  split <;> omega

end Binary64

end EvalRun
