import EvalRun.Json.Number
import EvalRun.Proofs.Binary64.Values

/-! # Proofs.Json.Scaling — literals that are read with one rounding

    A literal is read in steps: its digits are rounded to a double, the power of
    ten is, and the quotient of the two is rounded again. Only the last of these
    roundings is left where the digits and the power of ten are doubles
    themselves. The result is the double nearest to the literal then.

    * **Digits.** Whole numbers below `2 ^ 53` are doubles (`units_ofNat`), and
      so are the powers of ten up to `10 ^ 22` (`units_powerOfTen`).
    * **Literals.** A literal whose digits are below `2 ^ 53`, and of which at
      most 22 stand behind the point, is correctly rounded (`number?_of_short`).
-/

namespace EvalRun

namespace Binary64

/-! ### Doubles -/

theorem isNaN_nearest (negative : Bool) (n d : Nat) : (nearest negative n d).isNaN = false :=
  decide_eq_false (Nat.not_lt.2 (nearestMagnitude_le n d))

/-- A number of at most 53 bits is on the grid of its binade. -/
theorem stepExponent_le {n k : Nat} (h : n < 2 ^ 53) : stepExponent (n * 2 ^ k) 1 ≤ k := by
  unfold stepExponent
  rw [Nat.div_one]
  by_cases hzero : n * 2 ^ k = 0
  · rw [hzero, Nat.log2_zero]
    omega
  · have hlt : n * 2 ^ k < 2 ^ (53 + k) := by
      rw [Nat.pow_add]
      exact Nat.mul_lt_mul_of_pos_right h (Nat.two_pow_pos k)
    have hlog := (Nat.log2_lt hzero).2 hlt
    omega

theorem inSteps_mul {n k : Nat} (h : n < 2 ^ 53) :
    inSteps (n * 2 ^ k) 1 * 2 ^ stepExponent (n * 2 ^ k) 1 = n * 2 ^ k := by
  have hle := stepExponent_le (k := k) h
  unfold inSteps
  generalize stepExponent (n * 2 ^ k) 1 = e at *
  have hsplit : n * 2 ^ k = n * 2 ^ (k - e) * 2 ^ e := by
    rw [Nat.mul_assoc, ← Nat.pow_add, Nat.sub_add_cancel hle]
  rw [Nat.one_mul, hsplit, roundHalfEven_of_mul _ (Nat.two_pow_pos e)]

/-- A whole number of at most 53 bits is a double, in units of any binade. -/
theorem units_nearest_mul {n k : Nat} (h : n < 2 ^ 53) (hk : k ≤ 1074) :
    (nearest false (n * 2 ^ k) 1).isFinite = true ∧
      (nearest false (n * 2 ^ k) 1).units = n * 2 ^ k := by
  have hfinite : (nearest false (n * 2 ^ k) 1).isFinite = true := by
    obtain ⟨hmost, -⟩ := inSteps_bounds (n * 2 ^ k) 1
    have hstep := stepExponent_le (k := k) h
    have hle : nearestMagnitude (n * 2 ^ k) 1 ≤
        stepExponent (n * 2 ^ k) 1 * binadeSize + inSteps (n * 2 ^ k) 1 := Nat.min_le_right _ _
    apply decide_eq_true
    show nearestMagnitude (n * 2 ^ k) 1 < infinityMagnitude
    unfold infinityMagnitude binadeSize at *
    omega
  exact ⟨hfinite, by rw [units_nearest hfinite, inSteps_mul h]⟩

theorem units_ofNat {n : Nat} (h : n < 2 ^ 53) :
    (ofNat n).isFinite = true ∧ (ofNat n).units = n * unitsPerOne := by
  obtain ⟨k, hk, hunit⟩ := exists_unitsPerOne_eq
  unfold ofNat
  rw [hunit]
  exact units_nearest_mul h (Nat.le_of_eq hk)

theorem units_powerOfTen {k : Nat} (h : k ≤ 22) :
    (Json.powerOfTen k).units = Nat.pow 10 k * unitsPerOne := by
  have hall : ∀ k ≤ 22, (Json.powerOfTen k).units = Nat.pow 10 k * unitsPerOne := by decide +kernel
  exact hall k h

end Binary64

namespace Json

open Binary64

/-! ### Digits -/

theorem readDigits_cons (value : Nat) (c : Char) (rest : List Char) :
    readDigits value (c :: rest) = readDigits (value * 10 + (c.toNat - '0'.toNat)) rest := by
  rw [readDigits.eq_def]

theorem le_readDigits (value : Nat) (cs : List Char) : value ≤ readDigits value cs := by
  induction cs generalizing value with
  | nil => exact Nat.le_refl _
  | cons c rest ih =>
    rw [readDigits_cons]
    exact Nat.le_trans (by omega) (ih _)

theorem pushDigit?_of_le (value : Nat) (c : Char) {rest : List Char}
    (h : readDigits (value * 10 + (c.toNat - '0'.toNat)) rest ≤ maxSignificand) :
    pushDigit? value c = some (value * 10 + (c.toNat - '0'.toNat)) :=
  if_pos (Nat.le_trans (le_readDigits _ rest) h)

theorem collectWhole_cons {value next : Nat} {c : Char} (h : pushDigit? value c = some next)
    (rest : List Char) : collectWhole value (c :: rest) = collectWhole next rest := by
  dsimp only [collectWhole]
  simp only [h]

theorem collectFraction_cons {value next : Nat} {c : Char} (h : pushDigit? value c = some next)
    (taken : Nat) (rest : List Char) :
    collectFraction value taken (c :: rest) = collectFraction next (taken + 1) rest := by
  dsimp only [collectFraction]
  simp only [h]

/-- Integer digits that fit are all taken in. -/
theorem collectWhole_of_le {value : Nat} {cs : List Char}
    (h : readDigits value cs ≤ maxSignificand) :
    collectWhole value cs = (readDigits value cs, 0) := by
  induction cs generalizing value with
  | nil => rfl
  | cons c rest ih =>
    rw [readDigits_cons] at h ⊢
    rw [collectWhole_cons (pushDigit?_of_le value c h)]
    exact ih h

/-- So are fraction digits, and they are counted. -/
theorem collectFraction_of_le {value : Nat} {cs : List Char} (taken : Nat)
    (h : readDigits value cs ≤ maxSignificand) :
    collectFraction value taken cs = (readDigits value cs, taken + cs.length) := by
  induction cs generalizing value taken with
  | nil => rfl
  | cons c rest ih =>
    rw [readDigits_cons] at h ⊢
    rw [collectFraction_cons (pushDigit?_of_le value c h), ih (taken + 1) h, List.length_cons,
      Nat.add_assoc, Nat.add_comm 1]

/-! ### Scaling -/

/-- Digits below `2 ^ 53` divided by a small power of ten are rounded once. -/
theorem scale?_of_short {n k : Nat} (hn : n < 2 ^ 53) (hpos : 0 < k) (hk : k ≤ 22) :
    scale? n (-k) = some (ofDecimal false ⟨n, -k⟩) := by
  have hnegative : ¬ 0 ≤ -(k : Int) := by omega
  have hexponent : (- -(k : Int)).toNat = k := by omega
  have hpower : k ≤ maxPower := Nat.le_trans hk (by decide)
  simp only [scale?, if_neg hnegative, hexponent, Option.some.injEq, divideDown]
  unfold ofDecimal
  by_cases hzero : n = 0
  · have hofNat : ofNat 0 = zero := by decide +kernel
    rw [if_pos hzero, hzero, hofNat]
    rfl
  · -- no decimal with so few digits is cut off for its size
    have hdigits : digitCount n ≤ 16 := by
      refine (digitCount_le_iff (by decide)).2 (Nat.lt_trans hn ?_)
      decide
    have hleading : (Decimal.mk n (-k)).leadingExponent = -k + digitCount n - 1 := rfl
    rw [isZero_ofNat (Nat.pos_of_ne_zero hzero), if_neg Bool.false_ne_true, if_pos hpower,
      if_neg hzero, if_neg (by omega), if_neg (by omega), Decimal.ratio_neg n hpos]
    obtain ⟨-, hunits⟩ := units_ofNat hn
    unfold dividedByFinite
    rw [hunits, units_powerOfTen hk]
    exact nearest_mul_right false (n * unitsPerOne) (Nat.pow 10 k) unitsPerOne_pos

/-! ### No NaN -/

theorem isNaN_divideDown {x : Binary64} (hx : x.isNaN = false) (k fuel : Nat) :
    (divideDown x k fuel).isNaN = false := by
  induction fuel generalizing x k with
  | zero => exact hx
  | succ fuel ih =>
    unfold divideDown
    split
    · exact hx
    · split
      · exact isNaN_nearest ..
      · exact ih (isNaN_nearest ..) _

theorem isNaN_of_scale? {significand : Nat} {exponent : Int} {x : Binary64}
    (h : scale? significand exponent = some x) : x.isNaN = false := by
  unfold scale? at h
  dsimp only at h
  split at h
  · split at h
    · split at h
      · cases h
      · cases h
        exact isNaN_nearest ..
    · split at h
      · cases h
        exact isNaN_nearest ..
      · cases h
  · cases h
    exact isNaN_divideDown (isNaN_nearest ..) _ _

variable {l : NumberLiteral}

theorem NumberLiteral.isNaN_of_magnitude? {x : Binary64} (h : l.magnitude? = some x) :
    x.isNaN = false := by
  unfold magnitude? at h
  dsimp only at h
  split at h
  · exact isNaN_of_scale? h
  · split at h
    · split at h
      · cases h
      · cases h
        rfl
    · exact isNaN_of_scale? h

/-- No literal is read as a NaN. -/
theorem NumberLiteral.isNaN_of_number? {n : Number} (h : l.number? = some n) :
    n.toBinary64.isNaN = false := by
  have hfloat (h : (l.magnitude?.map fun x => Number.float (x.withSign l.negative)) = some n) :
      n.toBinary64.isNaN = false := by
    obtain ⟨x, hx, rfl⟩ := Option.map_eq_some_iff.1 h
    have hnan : x.isNaN = false := isNaN_of_magnitude? hx
    exact hnan
  unfold number? at h
  dsimp only at h
  split at h
  · split at h
    · split at h
      · cases h
        exact isNaN_nearest ..
      · exact hfloat h
    · split at h
      · cases h
        exact isNaN_nearest ..
      · exact hfloat h
  · exact hfloat h

/-! ### Literals -/

/-- A literal with a fraction is a double. -/
theorem NumberLiteral.number?_of_fraction (h : l.fraction ≠ []) :
    l.number? = l.magnitude?.map fun x => .float (x.withSign l.negative) := by
  simp [number?, h]

/-- A literal with few digits is read as the double nearest to it. -/
theorem NumberLiteral.number?_of_short (hexponent : l.exponent = none) (hfraction : l.fraction ≠ [])
    (hdigits : readDigits 0 (l.whole ++ l.fraction) < 2 ^ 53) (hplaces : l.fraction.length ≤ 22) :
    l.number? = some (.float (ofDecimal l.negative
      ⟨readDigits 0 (l.whole ++ l.fraction), -l.fraction.length⟩)) := by
  rw [readDigits_append] at hdigits ⊢
  have hmax : readDigits (readDigits 0 l.whole) l.fraction ≤ maxSignificand :=
    Nat.le_trans (Nat.le_of_lt hdigits) (by decide)
  have hwhole : collectWhole 0 l.whole = (readDigits 0 l.whole, 0) :=
    collectWhole_of_le (Nat.le_trans (le_readDigits _ l.fraction) hmax)
  have hcollected := collectFraction_of_le 0 hmax
  have hscaled := scale?_of_short hdigits (List.length_pos_iff.2 hfraction) hplaces
  have hpoint : ((0 : Nat) : Int) - ((0 + l.fraction.length : Nat) : Int) = -l.fraction.length := by
    omega
  have hmagnitude : l.magnitude? = some (ofDecimal false
      ⟨readDigits (readDigits 0 l.whole) l.fraction, -l.fraction.length⟩) := by
    unfold magnitude?
    simp only [hwhole, hcollected, hexponent, hpoint, hscaled]
  rw [number?_of_fraction hfraction, hmagnitude, Option.map_some, withSign_ofDecimal]

end Json

end EvalRun
