import EvalRun.Json.Number
import EvalRun.Proofs.Binary64.Decimal
import Mathlib.Data.List.Basic

/-! # Proofs.Json.NumberText — different numbers have different texts

    A number is written in one of three ways, and each can be told from the text:

    * **Integers** are digits, with a minus sign before them below zero.
    * **Positional** doubles have a point. The digits on both sides of it have
      the value that the double is nearest to.
    * **Scientific** doubles have an `e`. The mantissa has the digits of the
      shortest decimal, and with the power of ten they are the decimal.

    So a text belongs to one number only (`Number.text_inj`). The two zeros are
    different doubles and have different texts.
-/

namespace EvalRun

theorem digitsOf_inj {n m : Nat} : digitsOf n = digitsOf m ↔ n = m := by
  constructor
  · intro h
    rw [← readDigits_digitsOf n, h, readDigits_digitsOf]
  · intro h
    rw [h]

theorem e_not_mem_of_isDigit {cs : List Char} (h : ∀ c ∈ cs, c.isDigit = true) : 'e' ∉ cs := by
  intro hmem
  exact absurd (h 'e' hmem) (by decide)

namespace Decimal

/-! ### Scientific notation -/

/-- In scientific notation stand the digits of a decimal, the first apart from
    the others by a point, then an `e`, and the power of ten with its sign. -/
theorem exists_mantissa (d : Decimal) :
    ∃ mantissa, d.scientific = mantissa ++ 'e' ::
        (if d.leadingExponent < 0 then '-' else '+') :: digitsOf d.leadingExponent.natAbs ∧
      mantissa.filter Char.isDigit = digitsOf d.coefficient ∧ 'e' ∉ mantissa ∧
      mantissa.head? = (digitsOf d.coefficient).head? := by
  have hdigit : ∀ c ∈ digitsOf d.coefficient, c.isDigit = true := fun c => isDigit_of_mem_digitsOf
  unfold scientific
  generalize digitsOf d.coefficient = digits at *
  rcases digits with _ | ⟨first, _ | ⟨second, rest⟩⟩
  · exact ⟨[], rfl, rfl, List.not_mem_nil, rfl⟩
  · exact ⟨[first], rfl, List.filter_eq_self.2 hdigit, e_not_mem_of_isDigit hdigit, rfl⟩
  · refine ⟨first :: '.' :: second :: rest, rfl, ?_, ?_, rfl⟩
    · have hfirst : first.isDigit = true := hdigit first List.mem_cons_self
      have hrest : ∀ c ∈ second :: rest, c.isDigit = true := fun c hc =>
        hdigit c (List.mem_cons_of_mem _ hc)
      have hpoint : ¬ '.'.isDigit = true := by decide
      rw [List.filter_cons_of_pos hfirst, List.filter_cons_of_neg hpoint,
        List.filter_eq_self.2 hrest]
    · have hdigits := e_not_mem_of_isDigit hdigit
      simp only [List.mem_cons, not_or] at hdigits ⊢
      exact ⟨hdigits.1, by decide, hdigits.2⟩

/-- Two decimals with one scientific text are the same. -/
theorem scientific_inj {d d' : Decimal} (h : d.scientific = d'.scientific) : d = d' := by
  obtain ⟨mantissa, htext, hdigits, hplain, -⟩ := d.exists_mantissa
  obtain ⟨mantissa', htext', hdigits', -, -⟩ := d'.exists_mantissa
  rw [htext, htext'] at h
  have hbehind : 'e' ∉ (if d.leadingExponent < 0 then '-' else '+') ::
      digitsOf d.leadingExponent.natAbs := by
    have hexponent := e_not_mem_of_isDigit fun c => isDigit_of_mem_digitsOf (c := c)
      (n := d.leadingExponent.natAbs)
    simp only [List.mem_cons, not_or]
    refine ⟨?_, hexponent⟩
    split <;> decide
  -- the `e` parts the digits from the power of ten
  obtain ⟨rfl, -, hpower⟩ := (List.append_cons_inj_of_notMem hplain hbehind).1 h
  obtain ⟨hsign, habs⟩ := List.cons.inj hpower
  have hcoefficient : d.coefficient = d'.coefficient :=
    digitsOf_inj.1 (hdigits.symm.trans hdigits')
  have hleading : d.leadingExponent = d'.leadingExponent := by
    have hnatAbs := digitsOf_inj.1 habs
    by_cases hneg : d.leadingExponent < 0
    · by_cases hneg' : d'.leadingExponent < 0
      · omega
      · simp [hneg, hneg'] at hsign
    · by_cases hneg' : d'.leadingExponent < 0
      · simp [hneg, hneg'] at hsign
      · omega
  have hexponent : d.exponent = d'.exponent := by
    unfold leadingExponent at hleading
    rw [hcoefficient] at hleading
    omega
  cases d
  cases d'
  simp_all

/-- Digits on both sides of a point are not scientific notation. -/
theorem SetOut.ne_scientific {d : Decimal} {whole fraction : List Char}
    (h : d.SetOut whole fraction) (d' : Decimal) : whole ++ '.' :: fraction ≠ d'.scientific := by
  intro heq
  obtain ⟨mantissa, htext, -⟩ := d'.exists_mantissa
  have hmem : 'e' ∈ whole ++ '.' :: fraction := by
    rw [heq, htext]
    exact List.mem_append_right _ List.mem_cons_self
  rcases List.mem_append.1 hmem with hwhole | hfraction
  · exact e_not_mem_of_isDigit h.isDigit_whole hwhole
  · rcases List.mem_cons.1 hfraction with hpoint | hfraction
    · exact absurd hpoint (by decide)
    · exact e_not_mem_of_isDigit h.isDigit_fraction hfraction

end Decimal

/-! ### Doubles -/

namespace Binary64

open Json (numberLayout)

variable {x y : Binary64}

/-- The text of a double without its sign is a number with a point, or it is
    the shortest decimal in scientific notation. -/
theorem renderFinite_cases (hfinite : x.isFinite = true) :
    (∃ whole fraction, numberLayout.renderFinite x = whole ++ '.' :: fraction ∧
      (x.shortest .even).SetOut whole fraction) ∨
    numberLayout.renderFinite x = (x.shortest .even).scientific := by
  have hunfold : numberLayout.renderFinite x =
      if x.isZero ∨ -5 ≤ (x.shortest .even).leadingExponent ∧
          (x.shortest .even).leadingExponent < 16 then
        (x.shortest .even).positional true
      else (x.shortest .even).scientific := rfl
  rw [hunfold]
  split
  · left
    exact exists_setOut_shortest .even hfinite
  · right
    rfl

/-- It has a character that is no digit, and begins with a digit. -/
theorem exists_not_digit_of_renderFinite (hfinite : x.isFinite = true) :
    (∃ c ∈ numberLayout.renderFinite x, c = '.' ∨ c = 'e') ∧
      ∃ first, (numberLayout.renderFinite x).head? = some first ∧ first.isDigit = true := by
  rcases renderFinite_cases hfinite with ⟨whole, fraction, htext, hset⟩ | htext
  · rw [htext]
    refine ⟨⟨'.', List.mem_append_right _ List.mem_cons_self, .inl rfl⟩, ?_⟩
    obtain ⟨first, rest, rfl⟩ := List.exists_cons_of_ne_nil hset.whole_ne_nil
    exact ⟨first, rfl, hset.isDigit_whole first List.mem_cons_self⟩
  · obtain ⟨mantissa, hscientific, -, -, hhead⟩ := (x.shortest .even).exists_mantissa
    rw [htext, hscientific]
    refine ⟨⟨'e', List.mem_append_right _ List.mem_cons_self, .inr rfl⟩, ?_⟩
    obtain ⟨first, rest, hdigits⟩ :=
      List.exists_cons_of_ne_nil (digitsOf_ne_nil (x.shortest .even).coefficient)
    rw [hdigits] at hhead
    refine ⟨first, ?_, isDigit_of_mem_digitsOf (hdigits ▸ List.mem_cons_self)⟩
    rw [List.head?_append, hhead]
    rfl

/-- Of the doubles of one sign it is the text of one only. -/
theorem renderFinite_inj (hx : x.isFinite = true) (hy : y.isFinite = true)
    (hsign : x.negative = y.negative)
    (h : numberLayout.renderFinite x = numberLayout.renderFinite y) : x = y := by
  have hreadX := ofDecimal_shortest .even hx
  have hreadY := ofDecimal_shortest .even hy
  rcases renderFinite_cases hx with ⟨whole, fraction, htext, hset⟩ | htext <;>
    rcases renderFinite_cases hy with ⟨whole', fraction', htext', hset'⟩ | htext'
  · -- the point parts the digits, and their value is that of both decimals
    rw [htext, htext'] at h
    have hpoint {cs : List Char} (hcs : ∀ c ∈ cs, c.isDigit = true) : '.' ∉ cs := by
      intro hmem
      exact absurd (hcs '.' hmem) (by decide)
    obtain ⟨rfl, -, rfl⟩ := (List.append_cons_inj_of_notMem (hpoint hset.isDigit_whole)
      (hpoint hset.isDigit_fraction)).1 h
    have hvalue := hset.ofDecimal_eq x.negative
    rw [hset'.ofDecimal_eq, hreadX, hsign, hreadY] at hvalue
    exact hvalue.symm
  · rw [htext, htext'] at h
    exact absurd h (hset.ne_scientific _)
  · rw [htext, htext'] at h
    exact absurd h.symm (hset'.ne_scientific _)
  · rw [htext, htext'] at h
    rw [← hreadX, ← hreadY, Decimal.scientific_inj h, hsign]

theorem render_of_isFinite (hfinite : x.isFinite = true) :
    (numberLayout.render x).toList =
      (if x.negative then ['-'] else []) ++ numberLayout.renderFinite x := by
  have hlt : x.magnitude < infinityMagnitude := of_decide_eq_true hfinite
  have hnan : x.isNaN = false := decide_eq_false (by omega)
  have hinfinite : x.isInfinite = false := decide_eq_false (by omega)
  unfold NumberLayout.render
  rw [hnan, hinfinite]
  simp

/-- Two finite doubles with one text are the same. -/
theorem render_inj (hx : x.isFinite = true) (hy : y.isFinite = true)
    (h : numberLayout.render x = numberLayout.render y) : x = y := by
  have hchars := congrArg String.toList h
  rw [render_of_isFinite hx, render_of_isFinite hy] at hchars
  obtain ⟨-, first, hfirst, hdigit⟩ := exists_not_digit_of_renderFinite hx
  obtain ⟨-, first', hfirst', hdigit'⟩ := exists_not_digit_of_renderFinite hy
  have hne : first ≠ '-' := by
    rintro rfl
    exact absurd hdigit (by decide)
  have hne' : first' ≠ '-' := by
    rintro rfl
    exact absurd hdigit' (by decide)
  -- a text that begins with a digit does not begin with a sign
  have hsign : x.negative = y.negative := by
    have hhead := congrArg List.head? hchars
    cases hx : x.negative <;> cases hy : y.negative <;>
      simp [hx, hy, hfirst, hfirst', hne, hne'.symm] at hhead ⊢
  rw [hsign, List.append_cancel_left_eq] at hchars
  exact renderFinite_inj hx hy hsign hchars

end Binary64

/-! ### Numbers -/

namespace Json.Number

/-- The number is an integer or a finite double. -/
def IsFinite : Number → Prop
  | float x => x.isFinite = true
  | _ => True

/-- The text of an integer has digits, and a minus sign below zero. -/
theorem digit_or_minus_of_mem_text {n : Nat} {c : Char} :
    (c ∈ (natural n).text.toList → c.isDigit = true) ∧
      (c ∈ (negative n).text.toList → c.isDigit = true ∨ c = '-') := by
  constructor
  · intro hc
    rw [text, String.toList_ofList] at hc
    exact isDigit_of_mem_digitsOf hc
  · intro hc
    rw [text, String.toList_ofList] at hc
    rcases List.mem_cons.1 hc with rfl | hc
    · exact .inr rfl
    · exact .inl (isDigit_of_mem_digitsOf hc)

/-- The text of a double has a point or an `e`, which that of an integer has
    not. -/
theorem exists_mem_text_float {x : Binary64} (hfinite : x.isFinite = true) :
    ∃ c ∈ (float x).text.toList, c = '.' ∨ c = 'e' := by
  obtain ⟨⟨c, hc, hpoint⟩, -⟩ := Binary64.exists_not_digit_of_renderFinite hfinite
  refine ⟨c, ?_, hpoint⟩
  rw [text, Binary64.render_of_isFinite hfinite]
  exact List.mem_append_right _ hc

theorem text_float_ne {x : Binary64} (hfinite : x.isFinite = true) (n : Nat) :
    (float x).text ≠ (natural n).text ∧ (float x).text ≠ (negative n).text := by
  obtain ⟨c, hc, hpoint⟩ := exists_mem_text_float hfinite
  constructor
  · intro heq
    rw [heq] at hc
    have hdigit := digit_or_minus_of_mem_text.1 hc
    rcases hpoint with rfl | rfl <;> exact absurd hdigit (by decide)
  · intro heq
    rw [heq] at hc
    have hdigit := digit_or_minus_of_mem_text.2 hc
    rcases hpoint with rfl | rfl <;> exact absurd hdigit (by decide)

theorem text_natural_ne_negative (n m : Nat) : (natural n).text ≠ (negative m).text := by
  intro heq
  have hmem : '-' ∈ (natural n).text.toList := by
    rw [heq, text, String.toList_ofList]
    exact List.mem_cons_self
  exact absurd (digit_or_minus_of_mem_text.1 hmem) (by decide)

/-- Two numbers with one text are the same. -/
theorem text_inj {m n : Number} (hm : m.IsFinite) (hn : n.IsFinite) :
    m.text = n.text ↔ m = n := by
  refine ⟨fun h => ?_, fun h => by rw [h]⟩
  cases m with
  | natural k =>
    cases n with
    | natural l =>
      have hdigits := congrArg String.toList h
      rw [text, text, String.toList_ofList, String.toList_ofList] at hdigits
      rw [digitsOf_inj.1 hdigits]
    | negative l => exact absurd h (text_natural_ne_negative k l)
    | float y => exact absurd h.symm (text_float_ne hn k).1
  | negative k =>
    cases n with
    | natural l => exact absurd h.symm (text_natural_ne_negative l k)
    | negative l =>
      have hdigits := congrArg String.toList h
      rw [text, text, String.toList_ofList, String.toList_ofList] at hdigits
      rw [digitsOf_inj.1 (List.cons.inj hdigits).2]
    | float y => exact absurd h.symm (text_float_ne hn k).2
  | float x =>
    cases n with
    | natural l => exact absurd h (text_float_ne hm l).1
    | negative l => exact absurd h (text_float_ne hm l).2
    | float y => rw [Binary64.render_inj hm hn h]

end Json.Number

end EvalRun
