import EvalRun.Proofs.Binary64.Decimal
import Mathlib.Algebra.Ring.Nat

/-! # Proofs.Binary64.Nearest — rounding finds the nearest double

    What is read from a decimal is said to be correctly rounded if no double is
    nearer to the exact value, and if of two equally near ones the one with the
    even magnitude was taken (`IsNearest`). Three facts make it so:

    * **One grid.** On the multiples of a step, rounding a quotient half to even
      is nearest (`gap_roundHalfEven_le`).
    * **Steps.** The step is that of the binade into which the quotient falls,
      so the result is a double (`units_nearest`).
    * **Other grids.** Doubles with a coarser step are on the grid too, and those
      with a finer one are all below its first double (`units_on_grid`).
-/

namespace EvalRun

/-! ### One grid -/

/-- The distance between two numbers; one of the two differences is zero. -/
def gap (a b : Nat) : Nat := a - b + (b - a)

/-- No multiple of the step is nearer than the rounded one, and where another
    is equally near, the rounded one is even. -/
theorem gap_roundHalfEven_le (n : Nat) {d : Nat} (hd : 0 < d) (j : Nat) :
    gap n (roundHalfEven n d * d) ≤ gap n (j * d) ∧
      (j ≠ roundHalfEven n d → gap n (roundHalfEven n d * d) = gap n (j * d) →
        roundHalfEven n d % 2 = 0) := by
  have hdivision : n = n / d * d + n % d := (Nat.div_add_mod' n d).symm
  have hremainder : n % d < d := Nat.mod_lt n hd
  have hnext : (n / d + 1) * d = n / d * d + d := Nat.succ_mul _ _
  -- another multiple is at the floor or the ceiling, or a whole step beyond
  have hother : j = n / d ∨ j = n / d + 1 ∨ j * d + d ≤ n / d * d ∨
      n / d * d + d + d ≤ j * d := by
    rcases Nat.lt_trichotomy j (n / d) with hlt | heq | hgt
    · have hle := Nat.mul_le_mul_right d (Nat.succ_le_of_lt hlt)
      rw [Nat.succ_mul] at hle
      exact .inr (.inr (.inl hle))
    · exact .inl heq
    · by_cases hone : j = n / d + 1
      · exact .inr (.inl hone)
      · have hle := Nat.mul_le_mul_right d (show n / d + 1 + 1 ≤ j by omega)
        rw [Nat.succ_mul, hnext] at hle
        exact .inr (.inr (.inr hle))
  unfold roundHalfEven gap
  dsimp only
  generalize n / d = q at *
  generalize n % d = r at *
  split
  · rcases hother with rfl | rfl | hother | hother <;> constructor <;> omega
  · split
    · rw [hnext]
      rcases hother with rfl | rfl | hother | hother <;> constructor <;> omega
    · rcases Nat.mod_two_eq_zero_or_one q with hq | hq
      · rw [hq, Nat.add_zero]
        rcases hother with rfl | rfl | hother | hother <;> constructor <;> omega
      · rw [hq, hnext]
        rcases hother with rfl | rfl | hother | hother <;> constructor <;> omega

namespace Binary64

/-! ### Steps -/

/-- The exponent of the step on which a quotient is rounded: the bits that it
    has beyond 53. -/
def stepExponent (n d : Nat) : Nat := Nat.log2 (n / d) - 52

/-- The quotient in steps. -/
def inSteps (n d : Nat) : Nat := roundHalfEven n (d * 2 ^ stepExponent n d)

theorem le_roundHalfEven (n d : Nat) : n / d ≤ roundHalfEven n d := by
  unfold roundHalfEven
  dsimp only
  split
  · exact Nat.le_refl _
  · split <;> omega

theorem roundHalfEven_le (n d : Nat) : roundHalfEven n d ≤ n / d + 1 := by
  unfold roundHalfEven
  dsimp only
  split
  · omega
  · split <;> omega

/-- A quotient has at most 53 bits in steps, and 53 unless the step is the
    least. -/
theorem inSteps_bounds (n d : Nat) :
    inSteps n d ≤ 2 ^ 53 ∧ (stepExponent n d = 0 ∨ 2 ^ 52 ≤ n / (d * 2 ^ stepExponent n d)) := by
  have hquotient : n / (d * 2 ^ stepExponent n d) = n / d / 2 ^ stepExponent n d :=
    (Nat.div_div_eq_div_mul n d _).symm
  have hstep : 0 < 2 ^ stepExponent n d := Nat.two_pow_pos _
  constructor
  · have hbits : n / d < 2 ^ (53 + stepExponent n d) := by
      apply Nat.lt_of_lt_of_le Nat.lt_log2_self
      apply Nat.pow_le_pow_right (by decide)
      unfold stepExponent
      omega
    have hlt : n / (d * 2 ^ stepExponent n d) < 2 ^ 53 := by
      rw [hquotient, Nat.div_lt_iff_lt_mul hstep, ← Nat.pow_add]
      exact hbits
    exact Nat.le_trans (roundHalfEven_le n _) hlt
  · by_cases hzero : stepExponent n d = 0
    · exact .inl hzero
    · right
      have hlog : Nat.log2 (n / d) = 52 + stepExponent n d := by
        unfold stepExponent at *
        omega
      have hne : n / d ≠ 0 := by
        intro h
        rw [h, Nat.log2_zero] at hlog
        omega
      have hle : 2 ^ (52 + stepExponent n d) ≤ n / d := by
        rw [← hlog]
        exact Nat.log2_self_le hne
      rw [hquotient, Nat.le_div_iff_mul_le hstep, ← Nat.pow_add]
      exact hle

theorem magnitude_nearest {negative : Bool} {n d : Nat}
    (hfinite : (nearest negative n d).isFinite = true) :
    (nearest negative n d).magnitude = stepExponent n d * binadeSize + inSteps n d := by
  have hlt : nearestMagnitude n d < infinityMagnitude := of_decide_eq_true hfinite
  have hmin : nearestMagnitude n d =
      min infinityMagnitude (stepExponent n d * binadeSize + inSteps n d) := rfl
  show nearestMagnitude n d = _
  omega

/-- A number of steps, with the step in the exponent, is the magnitude of that
    many steps. The greatest number of them carries into the next binade, where
    half as many steps are twice as long. -/
theorem units_of_magnitude_eq {x : Binary64} {k q : Nat}
    (hmagnitude : x.magnitude = k * binadeSize + q) (hq : q ≤ 2 ^ 53)
    (hnormal : k = 0 ∨ 2 ^ 52 ≤ q) : x.units = q * 2 ^ k := by
  have hbinade : binadeSize = 2 ^ 52 := rfl
  rw [hbinade] at hmagnitude
  by_cases hlow : x.magnitude < binadeSize
  · rw [units_of_lt hlow]
    rw [hbinade] at hlow
    obtain rfl : k = 0 := by omega
    omega
  · have hle : binadeSize ≤ x.magnitude := Nat.not_lt.1 hlow
    rw [units_of_le hle]
    rw [hbinade] at hle ⊢
    show (2 ^ 52 + x.magnitude % 2 ^ 52) * 2 ^ (x.magnitude / 2 ^ 52 - 1) = q * 2 ^ k
    by_cases hcarry : q = 2 ^ 53
    · have hquotient : x.magnitude / 2 ^ 52 - 1 = k + 1 := by omega
      have hremainder : x.magnitude % 2 ^ 52 = 0 := by omega
      rw [hquotient, hremainder, hcarry, Nat.pow_succ]
      omega
    · have hquotient : x.magnitude / 2 ^ 52 - 1 = k := by omega
      have hremainder : 2 ^ 52 + x.magnitude % 2 ^ 52 = q := by omega
      rw [hquotient, hremainder]

/-- The double that a quotient is rounded to is that many steps. -/
theorem units_nearest {negative : Bool} {n d : Nat}
    (hfinite : (nearest negative n d).isFinite = true) :
    (nearest negative n d).units = inSteps n d * 2 ^ stepExponent n d := by
  obtain ⟨hmost, hleast⟩ := inSteps_bounds n d
  apply units_of_magnitude_eq (magnitude_nearest hfinite) hmost
  rcases hleast with hzero | hleast
  · exact .inl hzero
  · exact .inr (Nat.le_trans hleast (le_roundHalfEven n _))

/-! ### Other grids -/

/-- A double is on the grid of a step, or below the first double that has it. -/
theorem units_on_grid (x : Binary64) (k : Nat) :
    (∃ j, x.units = j * 2 ^ k) ∨ x.units < 2 ^ 52 * 2 ^ k := by
  have hbinade : binadeSize = 2 ^ 52 := rfl
  have hstep : 0 < 2 ^ k := Nat.two_pow_pos k
  by_cases hlow : x.magnitude < binadeSize
  · rw [units_of_lt hlow]
    exact .inr (Nat.lt_of_lt_of_le hlow (Nat.le_mul_of_pos_right _ hstep))
  · rw [units_of_le (Nat.not_lt.1 hlow), hbinade]
    have hfraction : x.magnitude % 2 ^ 52 < 2 ^ 52 := Nat.mod_lt _ (by decide)
    show (∃ j, (2 ^ 52 + x.magnitude % 2 ^ 52) * 2 ^ (x.magnitude / 2 ^ 52 - 1) = j * 2 ^ k) ∨
      (2 ^ 52 + x.magnitude % 2 ^ 52) * 2 ^ (x.magnitude / 2 ^ 52 - 1) < 2 ^ 52 * 2 ^ k
    generalize x.magnitude / 2 ^ 52 - 1 = e at *
    generalize x.magnitude % 2 ^ 52 = r at *
    by_cases hcoarser : k ≤ e
    · left
      refine ⟨(2 ^ 52 + r) * 2 ^ (e - k), ?_⟩
      rw [Nat.mul_assoc, ← Nat.pow_add, Nat.sub_add_cancel hcoarser]
    · right
      calc (2 ^ 52 + r) * 2 ^ e < 2 ^ 53 * 2 ^ e :=
            Nat.mul_lt_mul_of_pos_right (by omega) (Nat.two_pow_pos e)
        _ = 2 ^ 52 * 2 ^ (e + 1) := by rw [← Nat.pow_add, ← Nat.pow_add]; congr 1; omega
        _ ≤ 2 ^ 52 * 2 ^ k :=
            Nat.mul_le_mul_left _ (Nat.pow_le_pow_right (by decide) (by omega))

/-- No finite double is nearer to a quotient of units, and where another is
    equally near, this one has the even magnitude. Signs are left aside. -/
structure IsNearest (x : Binary64) (n d : Nat) : Prop where
  isFinite : x.isFinite = true
  gap_le : ∀ y : Binary64, y.isFinite = true → gap n (x.units * d) ≤ gap n (y.units * d)
  even : ∀ y : Binary64, y.isFinite = true → y.units ≠ x.units →
    gap n (x.units * d) = gap n (y.units * d) → x.magnitude % 2 = 0

/-- Rounding a quotient gives the nearest double. -/
theorem isNearest_nearest {negative : Bool} {n d : Nat} (hd : 0 < d)
    (hfinite : (nearest negative n d).isFinite = true) :
    (nearest negative n d).IsNearest n d := by
  have hmagnitude := magnitude_nearest hfinite
  have hunits := units_nearest hfinite
  obtain ⟨-, hleast⟩ := inSteps_bounds n d
  generalize nearest negative n d = x at *
  unfold inSteps at *
  generalize stepExponent n d = k at *
  have hstep : 0 < d * 2 ^ k := Nat.mul_pos hd (Nat.two_pow_pos k)
  have hscaled (j : Nat) : j * 2 ^ k * d = j * (d * 2 ^ k) := by
    rw [Nat.mul_assoc, Nat.mul_comm d]
  have heven (hq : roundHalfEven n (d * 2 ^ k) % 2 = 0) : x.magnitude % 2 = 0 := by
    rw [hmagnitude]
    unfold binadeSize
    omega
  -- a double off the grid is farther away than the first one on it
  have hbelow (y : Binary64) (hy : ¬ ∃ j, y.units = j * 2 ^ k) :
      gap n (x.units * d) < gap n (y.units * d) := by
    have hlow := (y.units_on_grid k).resolve_left hy
    have hk : k ≠ 0 := by
      rintro rfl
      exact hy ⟨y.units, by simp⟩
    have hfirst : 2 ^ 52 * (d * 2 ^ k) ≤ n := by
      have hle := hleast.resolve_left hk
      exact (Nat.le_div_iff_mul_le hstep).1 hle
    obtain ⟨hnear, -⟩ := gap_roundHalfEven_le n hstep (2 ^ 52)
    have hlt : y.units * d < 2 ^ 52 * (d * 2 ^ k) := by
      rw [← hscaled]
      exact Nat.mul_lt_mul_of_pos_right hlow hd
    rw [hunits, hscaled]
    apply Nat.lt_of_le_of_lt hnear
    unfold gap
    omega
  refine ⟨hfinite, ?_, ?_⟩
  · intro y _
    by_cases hy : ∃ j, y.units = j * 2 ^ k
    · obtain ⟨j, hj⟩ := hy
      rw [hunits, hj, hscaled, hscaled]
      exact (gap_roundHalfEven_le n hstep j).1
    · exact Nat.le_of_lt (hbelow y hy)
  · intro y _ hne hsame
    by_cases hy : ∃ j, y.units = j * 2 ^ k
    · obtain ⟨j, hj⟩ := hy
      rw [hunits, hj, hscaled, hscaled] at hsame
      apply heven
      refine (gap_roundHalfEven_le n hstep j).2 ?_ hsame
      rintro rfl
      exact hne (hj.trans hunits.symm)
    · exact absurd hsame (Nat.ne_of_lt (hbelow y hy))

/-- A quotient that is less than half a unit is nearest to zero. -/
theorem isNearest_zero (negative : Bool) {n d : Nat} (h : 2 * n < d) :
    (signedZero negative).IsNearest n d := by
  have hunits : (signedZero negative).units = 0 := rfl
  refine ⟨rfl, ?_, fun _ _ _ _ => rfl⟩
  intro y _
  rw [hunits]
  by_cases hzero : y.units = 0
  · exact Nat.le_of_eq (by rw [hzero])
  · have hle : d ≤ y.units * d := Nat.le_mul_of_pos_left d (by omega)
    unfold gap
    omega

/-! ### Decimals -/

theorem digitCount_pos (n : Nat) : 0 < digitCount n := List.length_pos_iff.2 (digitsOf_ne_nil n)

theorem lt_pow_digitCount (n : Nat) : n < Nat.pow 10 (digitCount n) :=
  (digitCount_le_iff (digitCount_pos n)).1 (Nat.le_refl _)

/-- A decimal below `10 ^ -k` is less than half a unit, if a unit is less than
    half of it. The number `k` is kept a variable so that nothing computes its
    power. -/
theorem two_mul_ratio_lt {d : Decimal} {k : Nat} (hunit : 2 * unitsPerOne ≤ Nat.pow 10 k)
    (h : d.leadingExponent < -k) : 2 * (d.ratio.1 * unitsPerOne) < d.ratio.2 := by
  obtain ⟨n, e⟩ := d
  have hpos := digitCount_pos n
  dsimp only [Decimal.leadingExponent] at h
  obtain ⟨places, hplaces, rfl⟩ : ∃ places : Nat, 0 < places ∧ e = -places :=
    ⟨(-e).toNat, by omega, by omega⟩
  have hsum : digitCount n + k ≤ places := by omega
  rw [Decimal.ratio_neg n hplaces]
  calc 2 * (n * unitsPerOne) = n * (2 * unitsPerOne) := Nat.mul_left_comm 2 n _
    _ ≤ n * Nat.pow 10 k := Nat.mul_le_mul_left n hunit
    _ < Nat.pow 10 (digitCount n) * Nat.pow 10 k :=
        Nat.mul_lt_mul_of_pos_right (lt_pow_digitCount n) (Nat.pow_pos (by decide))
    _ = 10 ^ (digitCount n + k) := (Nat.pow_add 10 _ _).symm
    _ ≤ Nat.pow 10 places := Nat.pow_le_pow_right (by decide) hsum

theorem ratio_pos (d : Decimal) : 0 < d.ratio.2 := by
  unfold Decimal.ratio
  split
  · exact Nat.one_pos
  · exact Nat.pow_pos (by decide)

/-- What is read from a decimal is the double nearest to it. -/
theorem isNearest_ofDecimal {negative : Bool} {d : Decimal}
    (hfinite : (ofDecimal negative d).isFinite = true) :
    (ofDecimal negative d).IsNearest (d.ratio.1 * unitsPerOne) d.ratio.2 := by
  unfold ofDecimal at hfinite ⊢
  split at hfinite
  · rename_i hzero
    have hratio : d.ratio.1 = 0 := by
      unfold Decimal.ratio
      split <;> simp [hzero]
    rw [if_pos hzero, hratio, Nat.zero_mul]
    exact isNearest_zero negative (ratio_pos d)
  · rename_i hnonzero
    split at hfinite
    · cases hfinite
    · rename_i hlarge
      split at hfinite
      · rename_i hsmall
        rw [if_neg hnonzero, if_neg hlarge, if_pos hsmall]
        exact isNearest_zero negative (two_mul_ratio_lt (k := 324) (by decide +kernel) hsmall)
      · rename_i hsmall
        rw [if_neg hnonzero, if_neg hlarge, if_neg hsmall]
        exact isNearest_nearest (ratio_pos d) hfinite

end Binary64

end EvalRun
