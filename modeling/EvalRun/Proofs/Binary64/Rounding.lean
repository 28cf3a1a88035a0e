import EvalRun.Binary64.Rounding

/-! # Proofs.Binary64.Rounding — rounding keeps what needs no rounding

    Rounding takes an exact quotient to the nearest double. Two facts about it
    carry everything that is read back from a text:

    * **Only the value counts.** A quotient may be expanded by any factor
      (`nearest_mul_right`).
    * **Doubles are fixed.** The exact value of a finite double rounds to that
      double (`nearest_units`). Its binade fixes the number of bits beyond 53,
      so that the quotient by them is exact, and so is the magnitude.
-/

namespace EvalRun

/-! ### Quotients -/

theorem roundHalfEven_mul_right (n d : Nat) {c : Nat} (hc : 0 < c) :
    roundHalfEven (n * c) (d * c) = roundHalfEven n d := by
  have hmul (a b : Nat) : a * c < b * c ↔ a < b := Nat.mul_lt_mul_right hc
  unfold roundHalfEven
  rw [Nat.mul_div_mul_right n d hc, Nat.mul_mod_mul_right]
  simp only [← Nat.mul_assoc, hmul]

/-- A whole number is not rounded. -/
theorem roundHalfEven_of_mul (n : Nat) {d : Nat} (hd : 0 < d) : roundHalfEven (n * d) d = n := by
  unfold roundHalfEven
  rw [Nat.mul_div_cancel n hd, Nat.mul_mod_left]
  simp only [Nat.mul_zero, hd, if_true]

namespace Binary64

theorem nearestMagnitude_mul_right (n d : Nat) {c : Nat} (hc : 0 < c) :
    nearestMagnitude (n * c) (d * c) = nearestMagnitude n d := by
  unfold nearestMagnitude
  dsimp only
  rw [Nat.mul_div_mul_right n d hc, Nat.mul_right_comm d c, roundHalfEven_mul_right n _ hc]

/-- The double nearest to a quotient depends on its value alone. -/
theorem nearest_mul_right (negative : Bool) (n d : Nat) {c : Nat} (hc : 0 < c) :
    nearest negative (n * c) (d * c) = nearest negative n d := by
  simp only [nearest, nearestMagnitude_mul_right n d hc]

theorem withSign_nearest (negative sign : Bool) (n d : Nat) :
    (nearest negative n d).withSign sign = nearest sign n d := rfl

/-- One is a power of two in units. Its exponent is a variable, so that nothing
    computes the power. -/
theorem exists_unitsPerOne_eq : ∃ k, k = 1074 ∧ unitsPerOne = Nat.pow 2 k := by
  obtain ⟨k, hk⟩ : ∃ k, k = 1074 := ⟨1074, rfl⟩
  refine ⟨k, hk, ?_⟩
  unfold unitsPerOne
  rw [← hk]

/-! ### Doubles -/

variable {x : Binary64}

/-- A number of the lowest binade is its magnitude. -/
theorem units_of_lt (h : x.magnitude < binadeSize) : x.units = x.magnitude := by
  unfold units
  rw [if_pos h]

theorem units_of_le (h : binadeSize ≤ x.magnitude) :
    x.units = (binadeSize + x.magnitude % binadeSize)
      * Nat.pow 2 (x.magnitude / binadeSize - 1) := by
  unfold units
  rw [if_neg (Nat.not_lt.2 h)]

/-- The exact value of a number has as many bits beyond 53 as its binade is
    above the lowest. -/
theorem log2_units (h : binadeSize ≤ x.magnitude) :
    x.units.log2 = 52 + (x.magnitude / binadeSize - 1) := by
  have hremainder : x.magnitude % binadeSize < binadeSize := Nat.mod_lt _ (by decide)
  have hbinade : binadeSize = 2 ^ 52 := rfl
  rw [units_of_le h]
  generalize x.magnitude / binadeSize - 1 = k at *
  have hpower : Nat.pow 2 k = 2 ^ k := rfl
  have hpow : 0 < 2 ^ k := Nat.two_pow_pos k
  rw [hpower]
  have hne : (binadeSize + x.magnitude % binadeSize) * 2 ^ k ≠ 0 := by
    apply Nat.mul_ne_zero
    · rw [hbinade]
      omega
    · exact Nat.pos_iff_ne_zero.1 hpow
  rw [Nat.log2_eq_iff hne]
  constructor
  · rw [Nat.pow_add, ← hbinade]
    exact Nat.mul_le_mul_right _ (Nat.le_add_right _ _)
  · have hdouble : 2 ^ (52 + k + 1) = 2 * binadeSize * 2 ^ k := by
      rw [hbinade, Nat.pow_succ, Nat.pow_add, Nat.mul_comm _ 2, Nat.mul_assoc]
    rw [hdouble]
    exact Nat.mul_lt_mul_of_pos_right (by omega) hpow

theorem nearestMagnitude_units (hx : x.isFinite = true) :
    nearestMagnitude x.units 1 = x.magnitude := by
  have hfinite : x.magnitude < infinityMagnitude := of_decide_eq_true hx
  unfold nearestMagnitude
  dsimp only
  rw [Nat.div_one, Nat.one_mul]
  by_cases hlow : x.magnitude < binadeSize
  · -- below the second binade there are no more than 52 bits
    have hunits : x.units = x.magnitude := units_of_lt hlow
    have hlog : x.magnitude.log2 - 52 = 0 := by
      by_cases hzero : x.magnitude = 0
      · rw [hzero]
        rfl
      · have hlt : x.magnitude.log2 < 52 := (Nat.log2_lt hzero).2 hlow
        omega
    have hround : roundHalfEven x.magnitude (Nat.pow 2 0) = x.magnitude := by
      have h := roundHalfEven_of_mul x.magnitude Nat.one_pos
      rwa [Nat.mul_one] at h
    rw [hunits, hlog, hround, Nat.zero_mul, Nat.zero_add]
    omega
  · have hle : binadeSize ≤ x.magnitude := Nat.not_lt.1 hlow
    have hlog : x.units.log2 - 52 = x.magnitude / binadeSize - 1 := by
      rw [log2_units hle]
      omega
    have hround : roundHalfEven x.units (Nat.pow 2 (x.magnitude / binadeSize - 1))
        = binadeSize + x.magnitude % binadeSize := by
      rw [units_of_le hle]
      exact roundHalfEven_of_mul _ (Nat.two_pow_pos _)
    rw [hlog, hround]
    have hdivision := Nat.div_add_mod x.magnitude binadeSize
    unfold binadeSize infinityMagnitude at *
    omega

/-- A finite number is the double nearest to its exact value. -/
theorem nearest_units (hx : x.isFinite = true) (negative : Bool) :
    nearest negative x.units 1 = x.withSign negative := by
  simp only [nearest, nearestMagnitude_units hx, withSign]

end Binary64

end EvalRun
