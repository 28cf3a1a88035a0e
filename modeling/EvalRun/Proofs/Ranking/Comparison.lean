import EvalRun.Proofs.Binary64.Values
import EvalRun.Proofs.Ranking.Order
import EvalRun.Proofs.Text.ByteOrder
import Mathlib

/-! # Proofs.Ranking.Comparison — comparing rows by value, bits and bytes

    Rows are compared through a key of their score and through their ids as
    texts. This module says what that comparison is of the scores as numbers and
    as bit patterns, and of the ids as bytes:

    * **Value.** Of two scores with different values the greater one comes first
      (`RankedEntry.order_eq_lt_iff_of_value`).
    * **Bits.** Where the values do not decide, the bits do. Where these are the
      same, the bytes of the ids do (`RankedEntry.order_eq_lt_iff_of_bits`).
    * **Order.** So the comparison is a total order up to equal bits and ids, NaNs
      of every pattern included (`RankedEntry.order_isKeyOrder`).
-/

namespace EvalRun

/-! ### Values -/

namespace Binary64

variable {x y : Binary64}

/-- The value of a number that is not a NaN: an integer multiple of `2 ^ -1074`,
    or one of the two ends beyond all of them. -/
def value (x : Binary64) : WithBot (WithTop Int) :=
  if x.isInfinite then (if x.negative then ⊥ else ⊤)
  else ((x.signedUnits : WithTop Int) : WithBot (WithTop Int))

/-- Numbers that are not NaNs are compared by their values. -/
theorem value_lt_value_iff (hx : x.isNaN = false) (hy : y.isNaN = false) :
    x.value < y.value ↔ x.lt y = true := by
  have hlt : x.lt y = true ↔ x.lineKey < y.lineKey := by simp [lt, hx, hy]
  have hmostX : x.magnitude ≤ infinityMagnitude := Nat.not_lt.1 (of_decide_eq_false hx)
  have hmostY : y.magnitude ≤ infinityMagnitude := Nat.not_lt.1 (of_decide_eq_false hy)
  have hpos : 0 < infinityMagnitude := by decide
  rw [hlt]
  unfold value
  by_cases hinfX : x.isInfinite = true
  · have hmagX : x.magnitude = infinityMagnitude := of_decide_eq_true hinfX
    rw [if_pos hinfX]
    by_cases hinfY : y.isInfinite = true
    · have hmagY : y.magnitude = infinityMagnitude := of_decide_eq_true hinfY
      rw [if_pos hinfY]
      unfold lineKey
      cases x.negative <;> cases y.negative <;> simp <;> omega
    · have hmagY : y.magnitude ≠ infinityMagnitude := fun h => hinfY (decide_eq_true h)
      rw [if_neg hinfY]
      unfold lineKey
      cases x.negative <;> cases y.negative <;> simp <;> omega
  · have hmagX : x.magnitude ≠ infinityMagnitude := fun h => hinfX (decide_eq_true h)
    rw [if_neg hinfX]
    by_cases hinfY : y.isInfinite = true
    · have hmagY : y.magnitude = infinityMagnitude := of_decide_eq_true hinfY
      have htop : ((x.signedUnits : WithTop Int) : WithBot (WithTop Int)) < ⊤ :=
        WithBot.coe_lt_coe.2 (WithTop.coe_lt_top _)
      rw [if_pos hinfY]
      unfold lineKey
      cases x.negative <;> cases y.negative <;> simp [htop] <;> omega
    · rw [if_neg hinfY, WithBot.coe_lt_coe, WithTop.coe_lt_coe]
      exact signedUnits_lt_signedUnits_iff

end Binary64

/-! ### Rows -/

/-- A comparison of rows is a total order up to equal keys, and the keys are
    score and id. -/
structure IsKeyOrder (order : RankedEntry → RankedEntry → Ordering) : Prop where
  /-- Compared the other way round, two rows compare the other way round. -/
  swap : ∀ a b, order b a = (order a b).swap
  /-- Rows that do not come later, one after another, do not in all. -/
  le_trans : ∀ a b c, order a b ≠ .gt → order b c ≠ .gt → order a c ≠ .gt
  /-- Rows that come before, one after another, do in all. -/
  lt_trans : ∀ a b c, order a b = .lt → order b c = .lt → order a c = .lt
  /-- Rows are not told apart if their scores have the same bits and their ids
      are the same. -/
  eq_iff : ∀ a b, order a b = .eq ↔ a.score.toBits = b.score.toBits ∧ a.doc = b.doc
  /-- Where the scores have different values, the greater one comes first. -/
  of_value : ∀ a b, a.score.isNaN = false → b.score.isNaN = false →
    a.score.value ≠ b.score.value → (order a b = .lt ↔ b.score.value < a.score.value)
  /-- Where the scores have the same bits, the bytes of the ids decide. -/
  of_bits : ∀ a b, a.score.toBits = b.score.toBits →
    (order a b = .lt ↔ Text.bytes a.doc < Text.bytes b.doc)

namespace RankedEntry

variable {a b : RankedEntry}

/-- Of two rows whose scores have different values, the one with the greater
    value comes first. -/
theorem order_eq_lt_iff_of_value (ha : a.score.isNaN = false) (hb : b.score.isNaN = false)
    (hne : a.score.value ≠ b.score.value) :
    order a b = .lt ↔ b.score.value < a.score.value := by
  rcases lt_or_gt_of_ne hne with hlt | hgt
  · -- the other one comes first, so this one does not
    have hkey := Binary64.totalKey_lt_of_lt ((Binary64.value_lt_value_iff ha hb).1 hlt)
    rw [order_eq_lt_iff]
    constructor
    · rintro (hless | ⟨hscore, -⟩)
      · omega
      · exact absurd (congrArg Binary64.value hscore) hne
    · intro h
      exact absurd h (lt_asymm hlt)
  · have hkey := Binary64.totalKey_lt_of_lt ((Binary64.value_lt_value_iff hb ha).1 hgt)
    constructor
    · intro _
      exact hgt
    · intro _
      exact order_eq_lt_iff.2 (.inl hkey)

theorem order_eq_lt_iff_of_bits (h : a.score.toBits = b.score.toBits) :
    order a b = .lt ↔ Text.bytes a.doc < Text.bytes b.doc := by
  have hscore : a.score = b.score := Binary64.toBits_inj.1 h
  rw [order_eq_lt_iff, hscore, Text.bytes_lt_bytes_iff]
  simp

/-- The order of ranking is a total order up to equal scores and ids. Whatever
    the scores are, NaNs of every pattern included, no two rows compare
    differently the other way round, and no three in a circle. -/
theorem order_isKeyOrder : IsKeyOrder order where
  swap a b := Std.OrientedCmp.eq_swap
  le_trans a b c := by
    intro hab hbc
    simp only [ne_eq, Ordering.ne_gt_iff_isLE] at *
    exact Std.TransCmp.isLE_trans hab hbc
  lt_trans a b c := by
    intro hab hbc
    exact Std.TransCmp.lt_trans hab hbc
  eq_iff a b := by rw [order_eq_eq_iff, Binary64.toBits_inj]
  of_value a b := order_eq_lt_iff_of_value
  of_bits a b := order_eq_lt_iff_of_bits

/-- A NaN comes first, and one with the sign bit last. Between them, zero comes
    before negative zero, which has the same value. -/
example :
    let row (bits : UInt64) : RankedEntry := .ofRetrieved "d" (.ofBits bits)
    order (row 0x7FF8000000000000) (row 0x7FF0000000000000) = .lt ∧
      order (row 0x8000000000000000) (row 0xFFF8000000000000) = .lt ∧
      order (row 0) (row 0x8000000000000000) = .lt := by
  decide

end RankedEntry

end EvalRun
