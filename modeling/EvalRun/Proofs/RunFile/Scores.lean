import EvalRun.Proofs.Binary64.Nearest
import EvalRun.RunFile

/-! # Proofs.RunFile.Scores — what the score column tells

    Whoever reads a run file wants the scores back, and wants to know which rows
    are fillers. The score column has both:

    * **Finite scores** stand there in positional notation, with digits on both
      sides of a point and never with an exponent. Read with one rounding, the
      text gives the score back, bit for bit (`readScore?_scoreColumn`).
    * **Fillers** have a zero without a point, which no retrieved document has
      (`scoreColumn_eq_zero_iff`).
-/

namespace EvalRun

/-! ### Positional notation -/

/-- The text is a number in positional notation: a minus sign or none, digits, a
    point and digits. -/
structure IsPositional (text : String) (negative : Bool) (whole fraction : List Char) : Prop where
  text_eq : text = String.ofList ((if negative then ['-'] else []) ++ (whole ++ '.' :: fraction))
  whole_ne_nil : whole ≠ []
  fraction_ne_nil : fraction ≠ []
  isDigit_whole : ∀ c ∈ whole, c.isDigit = true
  isDigit_fraction : ∀ c ∈ fraction, c.isDigit = true

/-- Reads a number without its sign, whose value is rounded once. -/
def readUnsigned? (negative : Bool) (cs : List Char) : Option Binary64 :=
  let whole := cs.takeWhile Char.isDigit
  match cs.dropWhile Char.isDigit with
  | '.' :: fraction =>
    if whole ≠ [] ∧ fraction ≠ [] ∧ fraction.all Char.isDigit = true then
      some (.ofDecimal negative ⟨readDigits 0 (whole ++ fraction), -fraction.length⟩)
    else none
  | _ => none

/-- Reads a number in positional notation; any other text is none. -/
def readScore? (text : String) : Option Binary64 :=
  match text.toList with
  | '-' :: unsigned => readUnsigned? true unsigned
  | unsigned => readUnsigned? false unsigned

namespace IsPositional

variable {text : String} {negative : Bool} {whole fraction : List Char}

/-- The digits before the point end at the point. -/
theorem readUnsigned?_eq (h : IsPositional text negative whole fraction) :
    readUnsigned? negative (whole ++ '.' :: fraction) =
      some (.ofDecimal negative ⟨readDigits 0 (whole ++ fraction), -fraction.length⟩) := by
  have hpoint : ¬ '.'.isDigit = true := by decide
  have htake : (whole ++ '.' :: fraction).takeWhile Char.isDigit = whole := by
    rw [List.takeWhile_append_of_pos h.isDigit_whole, List.takeWhile_cons_of_neg hpoint,
      List.append_nil]
  have hdrop : (whole ++ '.' :: fraction).dropWhile Char.isDigit = '.' :: fraction := by
    rw [List.dropWhile_append_of_pos h.isDigit_whole, List.dropWhile_cons_of_neg hpoint]
  unfold readUnsigned?
  simp only [htake, hdrop]
  rw [if_pos ⟨h.whole_ne_nil, h.fraction_ne_nil, List.all_eq_true.2 h.isDigit_fraction⟩]

/-- Such a text is read as the number that its digits write. -/
theorem readScore?_eq (h : IsPositional text negative whole fraction) :
    readScore? text =
      some (.ofDecimal negative ⟨readDigits 0 (whole ++ fraction), -fraction.length⟩) := by
  rw [h.text_eq, readScore?, String.toList_ofList]
  cases negative with
  | true => exact h.readUnsigned?_eq
  | false =>
    -- a number without a sign starts with a digit
    obtain ⟨first, rest, rfl⟩ := List.exists_cons_of_ne_nil h.whole_ne_nil
    have hne : first ≠ '-' := by
      rintro rfl
      exact absurd (h.isDigit_whole '-' List.mem_cons_self) (by decide)
    have hread := h.readUnsigned?_eq
    simp only [Bool.false_eq_true, if_false, List.nil_append, List.cons_append] at hread ⊢
    split
    · rename_i heq
      exact absurd (List.cons.inj heq).1 hne
    · exact hread

/-- Such a text has a point. -/
theorem point_mem (h : IsPositional text negative whole fraction) : '.' ∈ text.toList := by
  simp [h.text_eq]

end IsPositional

/-! ### Finite scores -/

namespace RankedEntry

variable {e : RankedEntry}

theorem isFiller_eq_false (h : e.origin = .retrieved) : e.isFiller = false := by
  simp [isFiller, h]

theorem scoreColumn_of_retrieved (h : e.origin = .retrieved) :
    e.scoreColumn = scoreLayout.render e.score := by
  rw [scoreColumn, isFiller_eq_false h, if_neg Bool.false_ne_true]

/-- A finite score is written in positional notation, and its digits have the
    value that it is the nearest double of. -/
theorem exists_isPositional (horigin : e.origin = .retrieved)
    (hfinite : e.score.isFinite = true) :
    ∃ whole fraction, IsPositional e.scoreColumn e.score.negative whole fraction ∧
      Binary64.ofDecimal e.score.negative
        ⟨readDigits 0 (whole ++ fraction), -fraction.length⟩ = e.score := by
  obtain ⟨whole, fraction, htext, hset⟩ :=
    Binary64.exists_setOut_shortest scoreLayout.tie hfinite
  have hlt : e.score.magnitude < Binary64.infinityMagnitude := of_decide_eq_true hfinite
  have hnan : e.score.isNaN = false := decide_eq_false (by omega)
  have hinfinite : e.score.isInfinite = false := decide_eq_false (by omega)
  have hrender : scoreLayout.render e.score =
      String.ofList ((if e.score.negative then ['-'] else []) ++
        (e.score.shortest scoreLayout.tie).positional true) := by
    unfold NumberLayout.render
    rw [hnan, hinfinite]
    rfl
  refine ⟨whole, fraction, ⟨?_, hset.whole_ne_nil, hset.fraction_ne_nil, hset.isDigit_whole,
    hset.isDigit_fraction⟩, ?_⟩
  · rw [scoreColumn_of_retrieved horigin, hrender, htext]
  · rw [hset.ofDecimal_eq, Binary64.ofDecimal_shortest scoreLayout.tie hfinite]

/-- A finite score is read back from its column. -/
theorem readScore?_scoreColumn (horigin : e.origin = .retrieved)
    (hfinite : e.score.isFinite = true) : readScore? e.scoreColumn = some e.score := by
  obtain ⟨whole, fraction, hpositional, hvalue⟩ := exists_isPositional horigin hfinite
  rw [hpositional.readScore?_eq, hvalue]

/-! ### Other scores and fillers -/

/-- An infinite score is written as a word. -/
theorem scoreColumn_of_isInfinite (horigin : e.origin = .retrieved)
    (hinfinite : e.score.isInfinite = true) :
    e.scoreColumn = if e.score.negative then "-inf" else "inf" := by
  have heq : e.score.magnitude = Binary64.infinityMagnitude := of_decide_eq_true hinfinite
  have hnan : e.score.isNaN = false := decide_eq_false (by omega)
  rw [scoreColumn_of_retrieved horigin, NumberLayout.render, hnan, hinfinite]
  cases e.score.negative <;> rfl

theorem scoreColumn_of_isNaN (horigin : e.origin = .retrieved) (hnan : e.score.isNaN = true) :
    e.scoreColumn = "NaN" := by
  rw [scoreColumn_of_retrieved horigin, NumberLayout.render, hnan]
  rfl

/-- A row has a zero without a point if and only if it is a filler. -/
theorem scoreColumn_eq_zero_iff : e.scoreColumn = "0" ↔ e.origin = .filler := by
  cases horigin : e.origin with
  | filler => simp [scoreColumn, isFiller, horigin]
  | retrieved =>
    simp only [reduceCtorEq, iff_false]
    intro hzero
    have hmagnitude : e.score.isFinite = true ∨ e.score.isInfinite = true ∨
        e.score.isNaN = true := by
      simp only [Binary64.isFinite, Binary64.isInfinite, Binary64.isNaN, decide_eq_true_eq]
      omega
    rcases hmagnitude with hfinite | hinfinite | hnan
    · -- a finite score has a point
      obtain ⟨whole, fraction, hpositional, -⟩ := exists_isPositional horigin hfinite
      have hpoint := hpositional.point_mem
      rw [hzero] at hpoint
      exact absurd hpoint (by decide)
    · rw [scoreColumn_of_isInfinite horigin hinfinite] at hzero
      cases hnegative : e.score.negative <;> simp [hnegative] at hzero
    · rw [scoreColumn_of_isNaN horigin hnan] at hzero
      exact absurd hzero (by decide)

/-- What the score column of a row tells.

    A finite score of a retrieved document stands there as a minus sign or none,
    digits, a point and digits. That text is read as the score, bit for bit,
    with one rounding to the nearest double. So two finite scores have one
    column only if they are the same, and the two zeros are not. Infinite scores
    are words. The column is a bare zero if and only if the row is a filler. -/
theorem scoreColumn_faithful (e : RankedEntry) :
    (e.origin = .retrieved → e.score.isFinite = true →
      ∃ whole fraction, IsPositional e.scoreColumn e.score.negative whole fraction ∧
        readScore? e.scoreColumn = some e.score ∧
        e.score.IsNearest (readDigits 0 (whole ++ fraction) * Binary64.unitsPerOne)
          (Nat.pow 10 fraction.length)) ∧
    (∀ other : RankedEntry, e.origin = .retrieved → other.origin = .retrieved →
      e.score.isFinite = true → other.score.isFinite = true →
      (e.scoreColumn = other.scoreColumn ↔ e.score = other.score)) ∧
    (e.origin = .retrieved → e.score.isInfinite = true →
      e.scoreColumn = if e.score.negative then "-inf" else "inf") ∧
    (e.scoreColumn = "0" ↔ e.origin = .filler) := by
  refine ⟨?_, ?_, scoreColumn_of_isInfinite, scoreColumn_eq_zero_iff⟩
  · intro horigin hfinite
    obtain ⟨whole, fraction, hpositional, hvalue⟩ := exists_isPositional horigin hfinite
    refine ⟨whole, fraction, hpositional, readScore?_scoreColumn horigin hfinite, ?_⟩
    have hnearest := Binary64.isNearest_ofDecimal (hvalue.symm ▸ hfinite)
    rwa [hvalue, Decimal.ratio_neg _ (List.length_pos_iff.2 hpositional.fraction_ne_nil)]
      at hnearest
  · intro other horigin hother hfinite hfinite'
    constructor
    · intro hsame
      have hread := readScore?_scoreColumn horigin hfinite
      rw [hsame, readScore?_scoreColumn hother hfinite', Option.some.injEq] at hread
      exact hread.symm
    · intro hsame
      rw [scoreColumn_of_retrieved horigin, scoreColumn_of_retrieved hother, hsame]

/-- Both zeros beside a filler. -/
example :
    (ofRetrieved "a" ⟨true, 0, by decide⟩).scoreColumn = "-0.0" ∧
      (ofRetrieved "b" .zero).scoreColumn = "0.0" ∧ (ofFiller "c").scoreColumn = "0" := by
  decide +kernel

end RankedEntry

end EvalRun
