import EvalRun.Binary64.Layout
import EvalRun.Proofs.Binary64.Rounding

/-! # Proofs.Binary64.Decimal — the text of a double reads back as the double

    Between a double and its text stand two decimals, the one that is chosen
    and the one that is read. They need not be equal, but have the same value:

    * **Only the value counts.** A zero at the end of the coefficient may be
      moved into the exponent (`ofDecimal_mul_ten`), so trailing zeros and the
      place of the point do not matter to what is read.
    * **What is chosen reads back.** The search asks the reader, and the exact
      decimal behind it reads back as well, for it is within the range that is
      not cut off and is rounded from the exact value (`ofDecimal_shortest`).
    * **Setting out keeps the value.** The digits before the point of a
      positional text and behind it are those of the decimal and zeros, and
      together they have its value (`Decimal.exists_setOut`).
-/

namespace EvalRun

/-! ### Digits -/

theorem isDigit_of_mem_digitsOf {n : Nat} {c : Char} (h : c ∈ digitsOf n) : c.isDigit = true :=
  Nat.isDigit_of_mem_toDigits (by decide) (by decide) h

theorem readDigits_eq_ofDigitChars (value : Nat) (cs : List Char) :
    readDigits value cs = Nat.ofDigitChars 10 cs value := by
  induction cs generalizing value with
  | nil => rw [readDigits.eq_def, Nat.ofDigitChars_nil]
  | cons c rest ih =>
    rw [readDigits.eq_def, Nat.ofDigitChars_cons, Nat.mul_comm 10 value]
    exact ih _

theorem readDigits_append (value : Nat) (cs more : List Char) :
    readDigits value (cs ++ more) = readDigits (readDigits value cs) more := by
  simp only [readDigits_eq_ofDigitChars, Nat.ofDigitChars_append]

/-- The digits of a number read as the number. -/
theorem readDigits_digitsOf (n : Nat) : readDigits 0 (digitsOf n) = n := by
  rw [readDigits_eq_ofDigitChars]
  exact Nat.ofDigitChars_ten_toDigits

/-- Zeros behind a number multiply it by powers of ten; those before it do
    nothing. -/
theorem readDigits_replicate_zero (value count : Nat) :
    readDigits value (List.replicate count '0') = Nat.pow 10 count * value := by
  rw [readDigits_eq_ofDigitChars, Nat.ofDigitChars_replicate_zero]
  rfl

theorem digitsOf_ne_nil (n : Nat) : digitsOf n ≠ [] := Nat.toDigits_ne_nil

/-- A number other than zero does not start with a zero. -/
theorem head?_digitsOf_ne {n : Nat} (hn : n ≠ 0) : (digitsOf n).head? ≠ some '0' := by
  have hchar : ∀ digit < 10, digit ≠ 0 → some digit.digitChar ≠ some '0' := by decide
  induction n using Nat.strongRecOn with
  | ind n ih =>
    unfold digitsOf
    by_cases hlt : n < 10
    · rw [Nat.toDigits_of_lt_base hlt]
      exact hchar n hlt hn
    · have hquotient : n / 10 ≠ 0 := by omega
      have hhead := ih (n / 10) (by omega) hquotient
      rw [Nat.toDigits_of_base_le (by decide) (by omega)]
      unfold digitsOf at hhead
      rwa [List.head?_append, Option.or_of_isSome (by simp [Nat.toDigits_ne_nil])]

theorem digitCount_le_iff {n k : Nat} (hk : 0 < k) : digitCount n ≤ k ↔ n < Nat.pow 10 k :=
  Nat.length_toDigits_le_iff (by decide) hk

theorem digitCount_mul_ten {n : Nat} (hn : n ≠ 0) : digitCount (n * 10) = digitCount n + 1 := by
  unfold digitCount digitsOf
  rw [Nat.toDigits_of_base_le (by decide) (by omega), Nat.mul_div_cancel n (by decide),
    List.length_append, List.length_singleton]

/-! ### Decimals of one value -/

theorem Decimal.ratio_neg (n : Nat) {k : Nat} (hk : 0 < k) :
    (Decimal.mk n (-k)).ratio = (n, Nat.pow 10 k) := by
  have hnegative : ¬ 0 ≤ -(k : Int) := by omega
  have hexponent : (- -(k : Int)).toNat = k := by omega
  simp only [ratio, hnegative, if_false, hexponent]

namespace Binary64

theorem withSign_ofDecimal (negative sign : Bool) (d : Decimal) :
    (ofDecimal negative d).withSign sign = ofDecimal sign d := by
  unfold ofDecimal
  split
  · rfl
  · split
    · rfl
    · split
      · rfl
      · exact withSign_nearest negative sign _ _

/-- The quotient of a decimal is rounded to the same number when a zero moves
    from its coefficient into its exponent: the power of ten stands above the
    line, or it stands below and is reduced. -/
theorem nearest_ratio_mul_ten (negative : Bool) (n : Nat) (e : Int) :
    nearest negative ((Decimal.mk (n * 10) e).ratio.1 * unitsPerOne)
        (Decimal.mk (n * 10) e).ratio.2
      = nearest negative ((Decimal.mk n (e + 1)).ratio.1 * unitsPerOne)
        (Decimal.mk n (e + 1)).ratio.2 := by
  by_cases hpositive : 0 ≤ e
  · have hnext : 0 ≤ e + 1 := by omega
    have hexponent : (e + 1).toNat = e.toNat + 1 := by omega
    have hpower : n * 10 * Nat.pow 10 e.toNat = n * Nat.pow 10 (e.toNat + 1) := by
      rw [Nat.mul_assoc, Nat.mul_comm 10]
      rfl
    simp only [Decimal.ratio, hpositive, hnext, if_true, hexponent, hpower]
  · obtain ⟨k, hk⟩ : ∃ k : Nat, e = -(k + 1 : Nat) := ⟨(-e).toNat - 1, by omega⟩
    have hexponent : (-e).toNat = k + 1 := by omega
    have hratio : (Decimal.mk n (e + 1)).ratio = (n, Nat.pow 10 k) := by
      unfold Decimal.ratio
      by_cases hzero : k = 0
      · -- the exponent becomes zero, and both forms of the quotient agree
        subst hzero
        have hnext : e + 1 = 0 := by omega
        simp [hnext]
      · have hnext : ¬ 0 ≤ e + 1 := by omega
        have hrest : (-(e + 1)).toNat = k := by omega
        simp only [hnext, if_false, hrest]
    rw [hratio]
    simp only [Decimal.ratio, hpositive, if_false, hexponent]
    have hreduce :=
      nearest_mul_right negative (n * unitsPerOne) (Nat.pow 10 k) (c := 10) (by decide)
    rwa [Nat.mul_right_comm] at hreduce

/-- A zero at the end of the coefficient counts as one power of ten. -/
theorem ofDecimal_mul_ten (negative : Bool) (n : Nat) (e : Int) :
    ofDecimal negative ⟨n * 10, e⟩ = ofDecimal negative ⟨n, e + 1⟩ := by
  by_cases hn : n = 0
  · simp only [ofDecimal, hn, Nat.zero_mul, if_true]
  · have hleading : (Decimal.mk (n * 10) e).leadingExponent
        = (Decimal.mk n (e + 1)).leadingExponent := by
      simp only [Decimal.leadingExponent, digitCount_mul_ten hn]
      omega
    have hten : n * 10 ≠ 0 := by omega
    unfold ofDecimal
    simp only [hn, hten, if_false, hleading, nearest_ratio_mul_ten]

theorem ofDecimal_mul_pow (negative : Bool) (n : Nat) (e : Int) (k : Nat) :
    ofDecimal negative ⟨n * Nat.pow 10 k, e⟩ = ofDecimal negative ⟨n, e + k⟩ := by
  induction k generalizing e with
  | zero => simp
  | succ k ih =>
    have hpower : n * Nat.pow 10 (k + 1) = n * Nat.pow 10 k * 10 := (Nat.mul_assoc _ _ _).symm
    rw [hpower, ofDecimal_mul_ten, ih]
    congr 2
    omega

theorem ofDecimal_trim (negative : Bool) (d : Decimal) :
    ofDecimal negative d.trim = ofDecimal negative d := by
  have htrim (fuel : Nat) (d : Decimal) :
      ofDecimal negative (d.trimWith fuel) = ofDecimal negative d := by
    induction fuel generalizing d with
    | zero => rfl
    | succ fuel ih =>
      unfold Decimal.trimWith
      split
      · rename_i hzero
        obtain ⟨n, e⟩ := d
        have hsplit : n / 10 * 10 = n := Nat.div_mul_cancel (Nat.dvd_of_mod_eq_zero hzero.2)
        rw [ih]
        simp only
        rw [← ofDecimal_mul_ten, hsplit]
      · rfl
  exact htrim _ d

/-! ### The shortest decimal -/

variable {x : Binary64}

theorem readsBack_of_nearestOnGrid? {tie : Tie} {e : Int} {d : Decimal}
    (h : nearestOnGrid? tie x e = some d) : readsBack x d = true := by
  unfold nearestOnGrid? at h
  extract_lets n m below above rest preferAbove at h
  cases hbelow : readsBack x below <;> cases habove : readsBack x above <;>
    simp only [hbelow, habove, Option.some.injEq, reduceCtorEq] at h
  · rwa [← h]
  · rwa [← h]
  · -- both read back, and one of them is preferred
    rw [← h]
    split
    · exact habove
    · exact hbelow

theorem readsBack_of_coarsestOnGrids? {tie : Tie} {e : Int} {steps : Nat} {d : Decimal}
    (h : coarsestOnGrids? tie x e steps = some d) : readsBack x d = true := by
  induction steps generalizing e with
  | zero => cases h
  | succ steps ih =>
    unfold coarsestOnGrids? at h
    split at h
    · rename_i hgrid
      cases h
      exact readsBack_of_nearestOnGrid? hgrid
    · exact ih h

theorem units_pos (h : x.isZero = false) : 0 < x.units := by
  have hmagnitude : x.magnitude ≠ 0 := of_decide_eq_false h
  by_cases hlow : x.magnitude < binadeSize
  · rw [units_of_lt hlow]
    omega
  · rw [units_of_le (Nat.not_lt.1 hlow)]
    apply Nat.mul_pos
    · unfold binadeSize
      omega
    · exact Nat.two_pow_pos _

/-- A finite number has at most 53 bits, in one of 2046 binades. -/
theorem units_lt {k : Nat} (h : x.isFinite = true) (hk : 53 + 2045 ≤ k) :
    x.units < Nat.pow 2 k := by
  have hfinite : x.magnitude < infinityMagnitude := of_decide_eq_true h
  have hbinade : x.magnitude / binadeSize - 1 ≤ k - 53 := by
    unfold infinityMagnitude binadeSize at *
    omega
  by_cases hlow : x.magnitude < binadeSize
  · rw [units_of_lt hlow]
    calc x.magnitude < 2 ^ 52 := hlow
      _ ≤ 2 ^ k := Nat.pow_le_pow_right (by decide) (by omega)
  · rw [units_of_le (Nat.not_lt.1 hlow)]
    have hfraction : binadeSize + x.magnitude % binadeSize < 2 ^ 53 := by
      unfold binadeSize
      omega
    have hsum : 53 + (k - 53) = k := by omega
    calc (binadeSize + x.magnitude % binadeSize) * 2 ^ (x.magnitude / binadeSize - 1)
        < 2 ^ 53 * 2 ^ (x.magnitude / binadeSize - 1) :=
          Nat.mul_lt_mul_of_pos_right hfraction (Nat.two_pow_pos _)
      _ ≤ 2 ^ 53 * 2 ^ (k - 53) :=
          Nat.mul_le_mul_left _ (Nat.pow_le_pow_right (by decide) hbinade)
      _ = 2 ^ k := by rw [← Nat.pow_add, hsum]

theorem pow_five_pos (e : Nat) : 0 < Nat.pow 5 e := Nat.pow_pos (by decide)

theorem pow_ten_eq (e : Nat) : Nat.pow 10 e = Nat.pow 5 e * Nat.pow 2 e := Nat.mul_pow 5 2 e

/-- What is below `2 ^ (k + b)` units of `2 ^ -k` has no more digits, in units of
    `10 ^ -k`, than a power of ten that exceeds `2 ^ b`. -/
theorem digitCount_mul_pow_five_le {u k b c : Nat} (hu : u < Nat.pow 2 (k + b))
    (hb : Nat.pow 2 b ≤ Nat.pow 10 c) (hc : 0 < c) : digitCount (u * Nat.pow 5 k) ≤ k + c := by
  have hten : (10 : Nat) ^ k = 5 ^ k * 2 ^ k := pow_ten_eq k
  have hlt : u * 5 ^ k < 10 ^ (k + c) := by
    calc u * 5 ^ k < 2 ^ (k + b) * 5 ^ k := Nat.mul_lt_mul_of_pos_right hu (pow_five_pos k)
      _ = 10 ^ k * 2 ^ b := by
          rw [hten, Nat.pow_add, Nat.mul_right_comm, Nat.mul_comm (2 ^ k)]
      _ ≤ 10 ^ k * 10 ^ c := Nat.mul_le_mul_left _ hb
      _ = 10 ^ (k + c) := (Nat.pow_add 10 k c).symm
  exact (digitCount_le_iff (by omega)).2 hlt

/-- One unit of `2 ^ -k` has more than `f` digits in units of `10 ^ -k`, if the
    other powers of five make up for so many powers of two. -/
theorem lt_digitCount_mul_pow_five {u k f g : Nat} (hu : 0 < u) (hk : k = f + g)
    (hg : Nat.pow 2 f ≤ Nat.pow 5 g) (hf : 0 < f) : f < digitCount (u * Nat.pow 5 k) := by
  have hten : (10 : Nat) ^ f = 5 ^ f * 2 ^ f := pow_ten_eq f
  have hle : 10 ^ f ≤ u * 5 ^ k := by
    calc 10 ^ f = 5 ^ f * 2 ^ f := hten
      _ ≤ 5 ^ f * 5 ^ g := Nat.mul_le_mul_left _ hg
      _ = 5 ^ k := by rw [hk, Nat.pow_add]
      _ ≤ u * 5 ^ k := Nat.le_mul_of_pos_left _ hu
  apply Nat.lt_of_not_le
  rw [digitCount_le_iff hf]
  exact Nat.not_lt.2 hle

/-- The exact decimal of a finite number other than zero is below `10 ^ 309`
    and no less than `10 ^ -324`. -/
theorem leadingExponent_exact {k : Nat} (hk : k = 1074) (hfinite : x.isFinite = true)
    (hzero : x.isZero = false) :
    (Decimal.mk (x.units * Nat.pow 5 k) (-k)).leadingExponent < 309 ∧
      -324 ≤ (Decimal.mk (x.units * Nat.pow 5 k) (-k)).leadingExponent := by
  have hmost : digitCount (x.units * Nat.pow 5 k) ≤ k + 309 := by
    refine digitCount_mul_pow_five_le (b := 1024) ?_ ?_ (by decide)
    · exact units_lt hfinite (by omega)
    · decide +kernel
  have hleast : 750 < digitCount (x.units * Nat.pow 5 k) := by
    refine lt_digitCount_mul_pow_five (g := 324) (units_pos hzero) hk ?_ (by decide)
    decide +kernel
  unfold Decimal.leadingExponent
  constructor <;> dsimp only <;> omega

/-- The powers of five in the numerator and of two in a unit cancel the power
    of ten in the denominator. -/
theorem nearest_mul_pow_five (n k : Nat) :
    nearest false (n * Nat.pow 5 k * Nat.pow 2 k) (Nat.pow 10 k) = nearest false n 1 := by
  have hpower : 0 < Nat.pow 10 k := Nat.pow_pos (by decide)
  have hreduce := nearest_mul_right false n 1 hpower
  rw [Nat.one_mul] at hreduce
  rwa [Nat.mul_assoc, ← pow_ten_eq]

/-- The exact decimal of a finite number, whose unit is `2 ^ -k`, reads back.
    The number `k` is kept a variable so that nothing computes its powers. -/
theorem ofDecimal_exact {k : Nat} (hk : k = 1074) (hunit : unitsPerOne = Nat.pow 2 k)
    (hfinite : x.isFinite = true) (hzero : x.isZero = false) :
    ofDecimal false ⟨x.units * Nat.pow 5 k, -k⟩ = x.abs := by
  obtain ⟨hbelow, habove⟩ := leadingExponent_exact hk hfinite hzero
  have hpos : x.units * Nat.pow 5 k ≠ 0 :=
    Nat.pos_iff_ne_zero.1 (Nat.mul_pos (units_pos hzero) (pow_five_pos k))
  unfold ofDecimal
  rw [if_neg hpos, if_neg (Int.not_le.2 hbelow), if_neg (Int.not_lt.2 habove),
    Decimal.ratio_neg _ (by omega), hunit, nearest_mul_pow_five, nearest_units hfinite]
  rfl

theorem readsBack_exactDecimal (hfinite : x.isFinite = true) (hzero : x.isZero = false) :
    readsBack x x.exactDecimal = true := by
  obtain ⟨k, hk, hunit⟩ := exists_unitsPerOne_eq
  have hexact : x.exactDecimal = ⟨x.units * Nat.pow 5 k, -k⟩ := by
    have hexponent : -(k : Int) = -1074 := by omega
    unfold exactDecimal
    rw [← hexponent, ← hk]
  rw [readsBack, hexact]
  exact decide_eq_true (ofDecimal_exact hk hunit hfinite hzero)

/-- The shortest decimal of a finite number reads back as that number. -/
theorem ofDecimal_shortest (tie : Tie) (hfinite : x.isFinite = true) :
    ofDecimal x.negative (x.shortest tie) = x := by
  have habs : ofDecimal false (x.shortest tie) = x.abs := by
    unfold shortest
    cases hzero : x.isZero with
    | true =>
      have hmagnitude : x.magnitude = 0 := of_decide_eq_true hzero
      simp [ofDecimal, signedZero, abs, withSign, hmagnitude]
    | false =>
      rw [if_neg Bool.false_ne_true, ofDecimal_trim]
      cases hsearch : coarsestOnGrids? tie x x.leadingExponent 17 with
      | some d => exact of_decide_eq_true (readsBack_of_coarsestOnGrids? hsearch)
      | none => exact of_decide_eq_true (readsBack_exactDecimal hfinite hzero)
  calc ofDecimal x.negative (x.shortest tie)
      = (ofDecimal false (x.shortest tie)).withSign x.negative :=
        (withSign_ofDecimal false x.negative _).symm
    _ = x.abs.withSign x.negative := by rw [habs]
    _ = x := rfl

end Binary64

/-! ### Positional notation -/

namespace Decimal

theorem isDigit_of_mem_parts (d : Decimal) :
    (∀ c ∈ d.parts.1, c.isDigit = true) ∧ ∀ c ∈ d.parts.2, c.isDigit = true := by
  have hdigits : ∀ c ∈ digitsOf d.coefficient, c.isDigit = true := fun c => isDigit_of_mem_digitsOf
  have hzeros (n : Nat) : ∀ c ∈ List.replicate n '0', c.isDigit = true := by
    intro c hc
    rw [List.eq_of_mem_replicate hc]
    rfl
  simp only [parts]
  -- the digits are followed by zeros, cut in two, or led by zeros
  split
  · exact ⟨fun c hc => (List.mem_append.1 hc).elim (hdigits c) (hzeros _ c), by simp⟩
  · split
    · rw [List.splitAt_eq]
      exact ⟨fun c hc => hdigits c (List.mem_of_mem_take hc),
        fun c hc => hdigits c (List.mem_of_mem_drop hc)⟩
    · exact ⟨hzeros 1, fun c hc => (List.mem_append.1 hc).elim (hzeros _ c) (hdigits c)⟩

/-- Positional notation has digits and a point. -/
theorem isDigit_or_eq_of_mem_positional {pointZero : Bool} {d : Decimal} {c : Char}
    (h : c ∈ d.positional pointZero) : c.isDigit = true ∨ c = '.' := by
  obtain ⟨hwhole, hfraction⟩ := d.isDigit_of_mem_parts
  unfold positional at h
  split at h
  · rename_i whole hparts
    rw [hparts] at hwhole
    split at h
    · rcases List.mem_append.1 h with h | h
      · exact .inl (hwhole c h)
      · have hpoint : c = '.' ∨ c = '0' := by simpa using h
        rcases hpoint with rfl | rfl
        · exact .inr rfl
        · exact .inl rfl
    · exact .inl (hwhole c h)
  · rename_i whole fraction _ hparts
    rw [hparts] at hwhole hfraction
    rcases List.mem_append.1 h with h | h
    · exact .inl (hwhole c h)
    · rcases List.mem_cons.1 h with rfl | h
      · exact .inr rfl
      · exact .inl (hfraction c h)

/-- The text of a decimal has these digits before its point and behind it, and
    they have the value of the decimal. -/
structure SetOut (d : Decimal) (whole fraction : List Char) : Prop where
  isDigit_whole : ∀ c ∈ whole, c.isDigit = true
  isDigit_fraction : ∀ c ∈ fraction, c.isDigit = true
  /-- A zero at the front stands alone. -/
  front : whole = ['0'] ∨ whole ≠ [] ∧ whole.head? ≠ some '0'
  fraction_ne_nil : fraction ≠ []
  ofDecimal_eq : ∀ negative, Binary64.ofDecimal negative
    ⟨readDigits 0 (whole ++ fraction), -fraction.length⟩ = Binary64.ofDecimal negative d

theorem SetOut.whole_ne_nil {d : Decimal} {whole fraction : List Char}
    (h : d.SetOut whole fraction) : whole ≠ [] := by
  rcases h.front with rfl | ⟨hne, -⟩
  · decide
  · exact hne

/-- Without digits behind the point, a zero is put there. -/
theorem setOut_of_nonneg {d : Decimal} (h : d.coefficient = 0 → d.exponent = 0)
    (hexponent : 0 ≤ d.exponent) :
    d.SetOut (digitsOf d.coefficient ++ List.replicate d.exponent.toNat '0') ['0'] where
  isDigit_whole := by
    have hdigits := d.isDigit_of_mem_parts.1
    simpa only [parts, hexponent, if_true] using hdigits
  isDigit_fraction := by
    intro c hc
    rw [List.mem_singleton.1 hc]
    rfl
  front := by
    by_cases hzero : d.coefficient = 0
    · rw [hzero, h hzero]
      exact .inl rfl
    · have hhead := head?_digitsOf_ne hzero
      have hsome : (digitsOf d.coefficient).head?.isSome := by
        simp [digitsOf_ne_nil]
      refine .inr ⟨by simp [digitsOf_ne_nil], ?_⟩
      rwa [List.head?_append, Option.or_of_isSome hsome]
  fraction_ne_nil := by decide
  ofDecimal_eq := by
    intro negative
    have hvalue : readDigits 0 (digitsOf d.coefficient ++ List.replicate d.exponent.toNat '0'
        ++ ['0']) = d.coefficient * Nat.pow 10 d.exponent.toNat * 10 := by
      -- the last zero is the one behind the point
      have hlast := readDigits_replicate_zero (Nat.pow 10 d.exponent.toNat * d.coefficient) 1
      rw [readDigits_append, readDigits_append, readDigits_digitsOf, readDigits_replicate_zero]
      rw [Nat.mul_comm d.coefficient, Nat.mul_comm _ 10]
      exact hlast
    have hsum : (0 : Int) + d.exponent.toNat = d.exponent := by omega
    rw [hvalue]
    calc Binary64.ofDecimal negative ⟨d.coefficient * Nat.pow 10 d.exponent.toNat * 10, -1⟩
        = Binary64.ofDecimal negative ⟨d.coefficient * Nat.pow 10 d.exponent.toNat, 0⟩ :=
          Binary64.ofDecimal_mul_ten negative _ (-1)
      _ = Binary64.ofDecimal negative ⟨d.coefficient, 0 + d.exponent.toNat⟩ :=
          Binary64.ofDecimal_mul_pow negative d.coefficient 0 _
      _ = Binary64.ofDecimal negative d := by rw [hsum]

/-- A point among the digits cuts them in two. -/
theorem setOut_of_lt {n places : Nat} (hplaces : 0 < places)
    (hcut : places < (digitsOf n).length) :
    (Decimal.mk n (-places)).SetOut ((digitsOf n).take ((digitsOf n).length - places))
      ((digitsOf n).drop ((digitsOf n).length - places)) := by
  have htake : (digitsOf n).length - places ≠ 0 := by omega
  have hlength : ((digitsOf n).drop ((digitsOf n).length - places)).length = places := by
    rw [List.length_drop]
    omega
  have hnonzero : n ≠ 0 := by
    rintro rfl
    have hone : (digitsOf 0).length = 1 := rfl
    omega
  exact {
    isDigit_whole := fun c hc => isDigit_of_mem_digitsOf (List.mem_of_mem_take hc)
    isDigit_fraction := fun c hc => isDigit_of_mem_digitsOf (List.mem_of_mem_drop hc)
    front := by
      refine .inr ⟨by simp [digitsOf_ne_nil, htake], ?_⟩
      rw [List.head?_take, if_neg htake]
      exact head?_digitsOf_ne hnonzero
    fraction_ne_nil := by
      apply List.ne_nil_of_length_pos
      rw [hlength]
      exact hplaces
    ofDecimal_eq := by
      intro negative
      rw [List.take_append_drop, readDigits_digitsOf, hlength] }

/-- A point before the digits is followed by zeros. -/
theorem setOut_of_le {n places : Nat} (hled : (digitsOf n).length ≤ places) :
    (Decimal.mk n (-places)).SetOut ['0']
      (List.replicate (places - (digitsOf n).length) '0' ++ digitsOf n) where
  isDigit_whole := by
    intro c hc
    rw [List.mem_singleton.1 hc]
    rfl
  isDigit_fraction := by
    intro c hc
    rcases List.mem_append.1 hc with hc | hc
    · rw [List.eq_of_mem_replicate hc]
      rfl
    · exact isDigit_of_mem_digitsOf hc
  front := .inl rfl
  fraction_ne_nil := by simp [digitsOf_ne_nil]
  ofDecimal_eq := by
    intro negative
    have hzeros : ['0'] ++ (List.replicate (places - (digitsOf n).length) '0' ++ digitsOf n)
        = List.replicate (places - (digitsOf n).length + 1) '0' ++ digitsOf n := rfl
    have hlength : (List.replicate (places - (digitsOf n).length) '0' ++ digitsOf n).length
        = places := by
      rw [List.length_append, List.length_replicate]
      omega
    rw [hzeros, readDigits_append, readDigits_replicate_zero, Nat.mul_zero, readDigits_digitsOf,
      hlength]

/-- Positional notation sets a decimal out around its point. -/
theorem exists_setOut {d : Decimal} (h : d.coefficient = 0 → d.exponent = 0) :
    ∃ whole fraction, d.positional true = whole ++ '.' :: fraction ∧ d.SetOut whole fraction := by
  by_cases hexponent : 0 ≤ d.exponent
  · refine ⟨_, _, ?_, setOut_of_nonneg h hexponent⟩
    simp only [positional, parts, hexponent, if_true]
  · have hset : d.SetOut d.parts.1 d.parts.2 := by
      obtain ⟨n, e⟩ := d
      obtain ⟨places, hplaces, rfl⟩ : ∃ places : Nat, 0 < places ∧ e = -places := by
        dsimp only at hexponent
        exact ⟨(-e).toNat, by omega, by omega⟩
      have htoNat : (- -(places : Int)).toNat = places := by omega
      simp only [parts, hexponent, if_false, htoNat, List.splitAt_eq]
      split
      · rename_i hcut
        exact setOut_of_lt hplaces hcut
      · rename_i hcut
        exact setOut_of_le (Nat.not_lt.1 hcut)
    refine ⟨_, _, ?_, hset⟩
    unfold positional
    split
    · rename_i whole hparts
      exact absurd (congrArg Prod.snd hparts) hset.fraction_ne_nil
    · rename_i whole fraction _ hparts
      rw [hparts]

end Decimal

namespace Binary64

/-- The shortest decimal of a finite number is set out around its point. -/
theorem exists_setOut_shortest (tie : Tie) {x : Binary64} (hfinite : x.isFinite = true) :
    ∃ whole fraction, (x.shortest tie).positional true = whole ++ '.' :: fraction ∧
      (x.shortest tie).SetOut whole fraction := by
  apply Decimal.exists_setOut
  intro hcoefficient
  have hread := ofDecimal_shortest tie hfinite
  have hzero : x.isZero = true := by
    rw [← hread]
    unfold ofDecimal
    rw [if_pos hcoefficient]
    rfl
  unfold shortest
  rw [if_pos hzero]

end Binary64

end EvalRun
