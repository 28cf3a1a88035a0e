import EvalRun.Proofs.Json.NumberText
import EvalRun.Proofs.Json.Scaling

/-! # Proofs.Json.Integers — which integers are told apart once they are read

    A literal without a point and without an exponent stands for an integer of
    any size, but its number has 64 bits.

    * **Exact.** From `-2 ^ 63` to `2 ^ 64 - 1` the number is that integer, and
      beyond these ends it is a finite double that is not zero
      (`NumberLiteral.integer?_number`).
    * **Wide.** So integers of different values have one text only if both are
      beyond these ends, and are rounded to one double
      (`NumberLiteral.text_eq_text_iff`).
    * **Lost digits.** From `2 ^ 64` on, the last digit is left out before the
      double is found, whatever it is (`NumberLiteral.AgreeBeforeLast.number?_eq`).
-/

namespace EvalRun

namespace Json

open Binary64

/-! ### Scaling up -/

variable {significand : Nat} {exponent : Int} {x : Binary64}

/-- Scaling up gives a product that is not infinite, or leaves a zero as it is. -/
theorem scale?_cases (hexponent : 0 ≤ exponent) (h : scale? significand exponent = some x) :
    x = (ofNat significand).timesFinite (powerOfTen exponent.toNat) ∧ x.isInfinite = false ∨
      x = ofNat significand ∧ x.isZero = true := by
  unfold scale? at h
  dsimp only at h
  rw [if_pos hexponent] at h
  split at h
  · split at h
    · cases h
    · rename_i hfinite
      cases h
      exact .inl ⟨rfl, Bool.eq_false_iff.2 hfinite⟩
  · split at h
    · rename_i hzero
      cases h
      exact .inr ⟨rfl, hzero⟩
    · cases h

/-- A double that is not too large is finite. -/
theorem isFinite_of_scale? (hexponent : 0 ≤ exponent)
    (h : scale? significand exponent = some x) : x.isFinite = true := by
  apply decide_eq_true
  rcases scale?_cases hexponent h with ⟨rfl, hinfinite⟩ | ⟨-, hzero⟩
  · -- no product is a NaN
    exact Nat.lt_of_le_of_ne (nearestMagnitude_le ..) (of_decide_eq_false hinfinite)
  · have hmagnitude : x.magnitude = 0 := of_decide_eq_true hzero
    rw [hmagnitude]
    decide

/-- A positive integer is not scaled to zero. -/
theorem isZero_of_scale? (hpos : 0 < significand) (hexponent : 0 ≤ exponent)
    (h : scale? significand exponent = some x) : x.isZero = false := by
  rcases scale?_cases hexponent h with ⟨rfl, -⟩ | ⟨rfl, -⟩
  · exact isZero_timesFinite (unitsPerOne_le_units_ofNat hpos)
      (unitsPerOne_le_units_ofNat (Nat.pow_pos (by decide)))
  · exact isZero_ofNat hpos

/-! ### Collecting digits -/

theorem readDigits_of_some {value next : Nat} {c : Char} (h : pushDigit? value c = some next)
    (rest : List Char) : readDigits value (c :: rest) = readDigits next rest := by
  unfold pushDigit? at h
  dsimp only at h
  split at h
  · obtain rfl := Option.some.inj h
    exact readDigits_cons value c rest
  · cases h

theorem pushDigit?_eq_none_iff {value : Nat} {c : Char} :
    pushDigit? value c = none ↔ maxSignificand < value * 10 + (c.toNat - '0'.toNat) := by
  simp [pushDigit?]

theorem collectWhole_of_none {value : Nat} {c : Char} (h : pushDigit? value c = none)
    (rest : List Char) : collectWhole value (c :: rest) = (value, rest.length + 1) := by
  dsimp only [collectWhole]
  simp only [h]

/-- Of the digits of a positive number, those that are collected make a positive
    number. -/
theorem collectWhole_pos {value : Nat} {cs : List Char} (h : 0 < readDigits value cs) :
    0 < (collectWhole value cs).1 := by
  induction cs generalizing value with
  | nil => exact h
  | cons c rest ih =>
    cases hpush : pushDigit? value c with
    | some next =>
      rw [readDigits_of_some hpush] at h
      rw [collectWhole_cons hpush]
      exact ih h
    | none =>
      -- one character alone does not make a number that is too large
      have hfull := pushDigit?_eq_none_iff.1 hpush
      have hchar : c.toNat < 2 ^ 32 := c.val.toNat_lt
      rw [collectWhole_of_none hpush]
      unfold maxSignificand at hfull
      show 0 < value
      omega

/-- Once the number is too large for its digits to be collected, the last one
    only counts. -/
theorem collectWhole_concat {value : Nat} {cs : List Char} {c : Char}
    (h : maxSignificand < readDigits value (cs ++ [c])) :
    collectWhole value (cs ++ [c]) =
      ((collectWhole value cs).1, (collectWhole value cs).2 + 1) := by
  induction cs generalizing value with
  | nil =>
    rw [List.nil_append, readDigits_cons] at h
    exact collectWhole_of_none (pushDigit?_eq_none_iff.2 h) []
  | cons first rest ih =>
    rw [List.cons_append] at h ⊢
    cases hpush : pushDigit? value first with
    | some next =>
      rw [readDigits_of_some hpush] at h
      rw [collectWhole_cons hpush, collectWhole_cons hpush]
      exact ih h
    | none =>
      rw [collectWhole_of_none hpush, collectWhole_of_none hpush, List.length_append]
      rfl

/-! ### Literals -/

/-- The integer that a number is, unless it is a double other than a zero. -/
def Number.integer? : Number → Option Int
  | .natural n => some n
  | .negative n => some (-n)
  | .float x => if x.isZero then some 0 else none

namespace NumberLiteral

/-- Written without a point and without an exponent. -/
def IsInteger (l : NumberLiteral) : Prop := l.fraction = [] ∧ l.exponent = none

/-- The integer that the sign and the digits before the point stand for. -/
def integer (l : NumberLiteral) : Int :=
  if l.negative then -(readDigits 0 l.whole : Int) else readDigits 0 l.whole

/-- The integer is below `-2 ^ 63`, or is `2 ^ 64` or more. -/
def IsWide (l : NumberLiteral) : Prop :=
  l.integer < -0x8000000000000000 ∨ 0x10000000000000000 ≤ l.integer

instance (l : NumberLiteral) : Decidable l.IsInteger :=
  inferInstanceAs (Decidable (l.fraction = [] ∧ l.exponent = none))

instance (l : NumberLiteral) : Decidable l.IsWide :=
  inferInstanceAs (Decidable (l.integer < -0x8000000000000000 ∨ 0x10000000000000000 ≤ l.integer))

variable {l l' : NumberLiteral} {n n' : Number}

theorem isWide_iff :
    l.IsWide ↔
      if l.negative then 2 ^ 63 < readDigits 0 l.whole else 2 ^ 64 ≤ readDigits 0 l.whole := by
  unfold IsWide integer
  cases l.negative
  · simp only [Bool.false_eq_true, if_false]
    omega
  · simp only [if_true]
    omega

theorem magnitude?_of_isInteger (hl : l.IsInteger) :
    l.magnitude? = scale? (collectWhole 0 l.whole).1 (collectWhole 0 l.whole).2 := by
  obtain ⟨hfraction, hexponent⟩ := hl
  have hpoint (dropped : Nat) : (dropped : Int) - (0 : Nat) = dropped := by omega
  unfold magnitude?
  rw [hfraction, hexponent]
  rcases collectWhole 0 l.whole with ⟨significand, dropped⟩
  dsimp only [collectFraction]
  rw [hpoint]

/-- The digits of an integer are scaled if it is wide, or written `-0`. -/
theorem number?_of_isInteger (hl : l.IsInteger) :
    (l.IsWide ∨ l.negative = true ∧ readDigits 0 l.whole = 0 →
      l.number? = l.magnitude?.map fun x => .float (x.withSign l.negative)) ∧
    (¬ (l.IsWide ∨ l.negative = true ∧ readDigits 0 l.whole = 0) →
      l.number? = some (if l.negative then .negative (readDigits 0 l.whole)
        else .natural (readDigits 0 l.whole))) := by
  obtain ⟨hfraction, hexponent⟩ := hl
  rw [isWide_iff]
  unfold number? maxSignificand
  simp only [hfraction, hexponent, List.isEmpty_nil, Option.isNone_none, Bool.and_self, if_true]
  cases l.negative
  · simp only [Bool.false_eq_true, if_false, false_and, or_false]
    exact ⟨fun h => if_neg (by omega), fun h => if_pos (by omega)⟩
  · simp only [if_true, true_and]
    exact ⟨fun h => if_neg (by omega), fun h => if_pos (by omega)⟩

/-- The number of an integer is finite. It is that integer, unless this is wide.
    Then it is a double, and not zero. The literal `-0` is the negative zero. -/
theorem integer?_number (hl : l.IsInteger) (h : l.number? = some n) :
    n.IsFinite ∧ (¬ l.IsWide → n.integer? = some l.integer) ∧ (l.IsWide → n.integer? = none) := by
  obtain ⟨hscaled, hexact⟩ := number?_of_isInteger hl
  by_cases hcase : l.IsWide ∨ l.negative = true ∧ readDigits 0 l.whole = 0
  · rw [hscaled hcase] at h
    obtain ⟨x, hx, rfl⟩ := Option.map_eq_some_iff.1 h
    rw [magnitude?_of_isInteger hl] at hx
    have hfinite : x.isFinite = true := isFinite_of_scale? (Int.natCast_nonneg _) hx
    have hinteger : (Number.float (x.withSign l.negative)).integer? =
        if x.isZero then some 0 else none := rfl
    rw [hinteger]
    refine ⟨hfinite, ?_, ?_⟩
    · intro hnarrow
      obtain ⟨-, hzero⟩ := hcase.resolve_left hnarrow
      have hcollected : collectWhole 0 l.whole = (0, 0) := by
        rw [collectWhole_of_le (by omega), hzero]
      have hnone : scale? 0 0 = some zero := by decide +kernel
      rw [hcollected] at hx
      obtain rfl := Option.some.inj (hnone.symm.trans hx)
      unfold integer
      rw [hzero]
      cases l.negative <;> rfl
    · intro hwide
      have hpos : 0 < readDigits 0 l.whole := by
        have := isWide_iff.1 hwide
        split at this <;> omega
      rw [isZero_of_scale? (collectWhole_pos hpos) (Int.natCast_nonneg _) hx]
      rfl
  · have hnarrow : ¬ l.IsWide := fun hwide => hcase (.inl hwide)
    rw [hexact hcase] at h
    obtain rfl := Option.some.inj h
    unfold integer
    cases l.negative
    · exact ⟨trivial, fun _ => rfl, fun hwide => absurd hwide hnarrow⟩
    · exact ⟨trivial, fun _ => rfl, fun hwide => absurd hwide hnarrow⟩

/-- Integers of different values have one text if and only if both are wide and
    are read as one double. -/
theorem text_eq_text_iff (hl : l.IsInteger) (hl' : l'.IsInteger) (h : l.number? = some n)
    (h' : l'.number? = some n') (hne : l.integer ≠ l'.integer) :
    n.text = n'.text ↔ l.IsWide ∧ l'.IsWide ∧ n = n' := by
  obtain ⟨hfinite, hinteger⟩ := integer?_number hl h
  obtain ⟨hfinite', hinteger'⟩ := integer?_number hl' h'
  rw [Number.text_inj hfinite hfinite']
  constructor
  · rintro rfl
    by_cases hwide : l.IsWide <;> by_cases hwide' : l'.IsWide
    · exact ⟨hwide, hwide', rfl⟩
    · exact absurd ((hinteger.2 hwide).symm.trans (hinteger'.1 hwide')) nofun
    · exact absurd ((hinteger.1 hwide).symm.trans (hinteger'.2 hwide')) nofun
    · exact absurd (Option.some.inj ((hinteger.1 hwide).symm.trans (hinteger'.1 hwide'))) hne
  · rintro ⟨-, -, rfl⟩
    rfl

/-- Two integers of one sign, both of `2 ^ 64` or more without it, have the same
    digits before the last one. -/
structure AgreeBeforeLast (l l' : NumberLiteral) : Prop where
  negative_eq : l.negative = l'.negative
  exists_digits : ∃ digits c c', l.whole = digits ++ [c] ∧ l'.whole = digits ++ [c']
  large : 2 ^ 64 ≤ readDigits 0 l.whole
  large' : 2 ^ 64 ≤ readDigits 0 l'.whole

/-- Such integers are read as one double, or both are too large. -/
theorem AgreeBeforeLast.number?_eq (h : AgreeBeforeLast l l') (hl : l.IsInteger)
    (hl' : l'.IsInteger) : l.number? = l'.number? := by
  obtain ⟨digits, c, c', hdigits, hdigits'⟩ := h.exists_digits
  have hnumber {l : NumberLiteral} {c : Char} (hl : l.IsInteger) (hdigits : l.whole = digits ++ [c])
      (hlarge : 2 ^ 64 ≤ readDigits 0 l.whole) :
      l.number? = (scale? (collectWhole 0 digits).1
        ((collectWhole 0 digits).2 + 1 : Nat)).map fun x => .float (x.withSign l.negative) := by
    have hwide : l.IsWide := by
      rw [isWide_iff]
      split <;> omega
    have hmax : maxSignificand < readDigits 0 (digits ++ [c]) := by
      rw [← hdigits]
      exact hlarge
    rw [(number?_of_isInteger hl).1 (.inl hwide), magnitude?_of_isInteger hl, hdigits,
      collectWhole_concat hmax]
  rw [hnumber hl hdigits h.large, hnumber hl' hdigits' h.large', h.negative_eq]

end NumberLiteral

end Json

end EvalRun
