import EvalRun.Proofs.Binary64.Decimal
import EvalRun.Toml.Reader
import EvalRun.Toml.Writer

/-! # Proofs.Toml.Numbers — numbers read back as they were written

    A number is written as a run of digits, or as two runs with a point between
    them, and a line feed follows. Four readers are tried on it in turn:

    * **Dates and times** want a hyphen or a colon behind their first digits
      (`datetime?_eq_none`).
    * **Floats** want a point, so an integer is none of them
      (`digitFloat?_digitsOf`), and a float is read with the value of its digits
      (`number?_writeFloat`).
    * **Integers** are read in 64 bits, which is what they are written in
      (`number?_digitsOf`).
-/

namespace EvalRun.Toml

/-! ### Runs of digits -/

/-- The characters do not start with a digit or an underscore, so a run of
    digits ends before them. -/
def EndsRun (cs : List Char) : Prop := ∀ c ∈ cs.head?, c.isDigit = false ∧ c ≠ '_'

theorem endsRun_cons {c : Char} (h : c.isDigit = false ∧ c ≠ '_') (rest : List Char) :
    EndsRun (c :: rest) := by
  intro d hd
  obtain rfl : c = d := by simpa using hd
  exact h

variable {run behind : List Char}

theorem digitRun?_append (hrun : ∀ c ∈ run, c.isDigit = true) (hbehind : EndsRun behind) :
    digitRun? Char.isDigit (run ++ behind) = (run, behind) := by
  induction run with
  | nil =>
    cases behind with
    | nil => rfl
    | cons c rest =>
      have hc : c.isDigit = false := (hbehind c rfl).1
      simp [digitRun?, hc]
  | cons c run ih =>
    have hc : c.isDigit = true := hrun c List.mem_cons_self
    have hrest := ih fun d hd => hrun d (List.mem_cons_of_mem c hd)
    simp [digitRun?, hc, hrest]

theorem digits?_append (hne : run ≠ []) (hrun : ∀ c ∈ run, c.isDigit = true)
    (hbehind : EndsRun behind) (fuel : Nat) :
    digits? Char.isDigit (fuel + 1) (run ++ behind) = some (run, behind) := by
  unfold digits?
  rw [digitRun?_append hrun hbehind]
  split
  · rename_i hnil
    exact absurd (congrArg Prod.fst hnil) hne
  · rename_i hrest
    have hbehind_eq := congrArg Prod.snd hrest
    dsimp only at hbehind_eq
    rw [hbehind_eq] at hbehind
    exact absurd rfl (hbehind '_' rfl).2
  · rename_i heq
    rw [← heq]

theorem head?_of_append_eq_cons {cs rest : List Char} {c : Char} (hne : run ≠ [])
    (h : run ++ cs = c :: rest) : run.head? = some c := by
  cases run with
  | nil => exact absurd rfl hne
  | cons d run =>
    rw [List.cons_append, List.cons.injEq] at h
    rw [h.1, List.head?_cons]

/-- The digits of a whole number are read if a zero at the front stands
    alone. -/
theorem whole?_append (hfront : run = ['0'] ∨ run ≠ [] ∧ run.head? ≠ some '0')
    (hrun : ∀ c ∈ run, c.isDigit = true) (hbehind : EndsRun behind) :
    whole? (run ++ behind) = some (run, behind) := by
  rcases hfront with rfl | ⟨hne, hhead⟩
  · -- the zero is all that is read, whatever follows
    rfl
  · unfold whole?
    split
    · rename_i rest hzero
      exact absurd (head?_of_append_eq_cons hne hzero) hhead
    · exact digits?_append hne hrun hbehind _

theorem digitsOf_front (n : Nat) :
    digitsOf n = ['0'] ∨ digitsOf n ≠ [] ∧ (digitsOf n).head? ≠ some '0' := by
  by_cases hn : n = 0
  · rw [hn]
    exact .inl rfl
  · exact .inr ⟨digitsOf_ne_nil n, head?_digitsOf_ne hn⟩

/-! ### Neither dates nor times -/

variable {c : Char}

/-- A number of fixed width within a run of digits is followed by a digit, or by
    what follows the run. -/
theorem one?_of_fixedNumber? {count low high n : Nat} {mark : Char} {after : List Char}
    (hrun : ∀ d ∈ run, d.isDigit = true) (hc : c.isDigit = false) (hmark : mark.isDigit = false)
    (hne : mark ≠ c) (h : fixedNumber? count low high (run ++ c :: behind) = some (n, after)) :
    one? mark after = none := by
  unfold fixedNumber? at h
  simp only [Option.ite_none_right_eq_some, Option.some.injEq, Prod.mk.injEq, Bool.and_eq_true,
    List.all_eq_true, decide_eq_true_eq] at h
  obtain ⟨⟨⟨⟨-, hdigits⟩, -⟩, -⟩, -, rfl⟩ := h
  have hcount : count ≤ run.length := by
    apply Nat.le_of_not_lt
    intro hlt
    -- the character behind the run would be one of the digits
    have hmem : c ∈ (run ++ c :: behind).take count := by
      rw [List.mem_take_iff_getElem]
      refine ⟨run.length, by simp; omega, ?_⟩
      simp
    rw [hdigits c hmem] at hc
    cases hc
  -- what is left of the run comes next, or else the character behind it
  rw [List.drop_append_of_le_length hcount]
  cases hdrop : run.drop count with
  | nil => simp [one?, hne]
  | cons d rest =>
    have hd : d.isDigit = true := hrun d (List.mem_of_mem_drop (hdrop ▸ List.mem_cons_self))
    have hmark_ne : mark ≠ d := by
      rintro rfl
      rw [hd] at hmark
      cases hmark
    simp [one?, hmark_ne]

/-- A run of digits is no date and no time without a hyphen or a colon behind
    it. -/
theorem datetime?_eq_none (hrun : ∀ d ∈ run, d.isDigit = true) (hc : c.isDigit = false)
    (hhyphen : '-' ≠ c) (hcolon : ':' ≠ c) : datetime? (run ++ c :: behind) = none := by
  have hdate : date? (run ++ c :: behind) = none := by
    unfold date?
    cases hyear : fixedNumber? 4 0 9999 (run ++ c :: behind) with
    | none => rfl
    | some found =>
      have hone := one?_of_fixedNumber? hrun hc (by decide) hhyphen hyear
      simp [hone]
  have htime : time? (run ++ c :: behind) = none := by
    unfold time?
    cases hhour : fixedNumber? 2 0 23 (run ++ c :: behind) with
    | none => rfl
    | some found =>
      have hone := one?_of_fixedNumber? hrun hc (by decide) hcolon hhour
      simp [hone]
  unfold datetime?
  rw [hdate, htime]
  rfl

theorem datetime?_minus (cs : List Char) : datetime? ('-' :: cs) = none := by
  have hnumber (count low high : Nat) : fixedNumber? (count + 1) low high ('-' :: cs) = none := by
    simp [fixedNumber?]
  simp [datetime?, date?, time?, hnumber]

/-! ### Integers -/

theorem sign_append (hne : run ≠ []) (hrun : ∀ d ∈ run, d.isDigit = true) (cs : List Char) :
    sign (run ++ cs) = (false, run ++ cs) := by
  obtain ⟨d, rest, rfl⟩ := List.exists_cons_of_ne_nil hne
  have hd : d.isDigit = true := hrun d List.mem_cons_self
  unfold sign
  split
  · rename_i hminus
    rw [List.cons_append, List.cons.injEq] at hminus
    rw [hminus.1] at hd
    exact absurd hd (by decide)
  · rename_i hplus
    rw [List.cons_append, List.cons.injEq] at hplus
    rw [hplus.1] at hd
    exact absurd hd (by decide)
  · rfl

theorem specialFloat?_append (hne : run ≠ []) (hrun : ∀ d ∈ run, d.isDigit = true)
    (cs : List Char) : specialFloat? (run ++ cs) = none := by
  obtain ⟨d, rest, rfl⟩ := List.exists_cons_of_ne_nil hne
  have hd : d.isDigit = true := hrun d List.mem_cons_self
  have hi : d ≠ 'i' := by
    rintro rfl
    exact absurd hd (by decide)
  have hn : d ≠ 'n' := by
    rintro rfl
    exact absurd hd (by decide)
  unfold specialFloat?
  rw [sign_append hne hrun]
  simp [hi, hn]

theorem endsRun_lineFeed (rest : List Char) : EndsRun ('\n' :: rest) :=
  endsRun_cons (by decide) rest

/-- Digits without a point are no float. -/
theorem digitFloat?_digitsOf (n : Nat) (rest : List Char) :
    digitFloat? (digitsOf n ++ '\n' :: rest) = none := by
  have hdigits : ∀ d ∈ digitsOf n, d.isDigit = true := fun d => isDigit_of_mem_digitsOf
  have hwhole := whole?_append (digitsOf_front n) hdigits (endsRun_lineFeed rest)
  unfold digitFloat?
  rw [sign_append (digitsOf_ne_nil n) hdigits]
  simp [hwhole, fraction?, exponent?]

theorem inInt64_of_le {n : Nat} (hn : n ≤ maxInteger) : inInt64 n = true := by
  have hbelow : (n : Int) < 0x8000000000000000 := by
    unfold maxInteger at hn
    omega
  have habove : -0x8000000000000000 ≤ (n : Int) := by omega
  unfold inInt64
  simp only [habove, hbelow, decide_true, Bool.and_self]

/-- A number that is written is read in 64 bits. -/
theorem integer?_digitsOf {n : Nat} (hn : n ≤ maxInteger) (rest : List Char) :
    integer? (digitsOf n ++ '\n' :: rest) = some (.integer n, '\n' :: rest) := by
  have hdigits : ∀ d ∈ digitsOf n, d.isDigit = true := fun d => isDigit_of_mem_digitsOf
  have hwhole := whole?_append (digitsOf_front n) hdigits (endsRun_lineFeed rest)
  have hrange := inInt64_of_le hn
  -- a zero at the front is followed by the line feed, so no base is named
  have hbase (d : Char) (cs : List Char) (h : digitsOf n ++ '\n' :: rest = '0' :: d :: cs) :
      d = '\n' := by
    rcases digitsOf_front n with hzero | ⟨hne, hhead⟩
    · rw [hzero] at h
      exact (List.cons.inj (List.cons.inj h).2).1.symm
    · exact absurd (head?_of_append_eq_cons hne h) hhead
  unfold integer?
  split
  · rename_i h
    exact absurd (hbase _ _ h) (by decide)
  · rename_i h
    exact absurd (hbase _ _ h) (by decide)
  · rename_i h
    exact absurd (hbase _ _ h) (by decide)
  · rw [sign_append (digitsOf_ne_nil n) hdigits]
    simp only [hwhole, bind, Option.bind, readDigits_digitsOf, Bool.false_eq_true, if_false, hrange,
      if_true]

/-- An integer reads back. -/
theorem number?_digitsOf {n : Nat} (hn : n ≤ maxInteger) (rest : List Char) :
    number? (digitsOf n ++ '\n' :: rest) = some (.integer n, '\n' :: rest) := by
  have hdigits : ∀ d ∈ digitsOf n, d.isDigit = true := fun d => isDigit_of_mem_digitsOf
  unfold number?
  rw [datetime?_eq_none hdigits (by decide) (by decide) (by decide), digitFloat?_digitsOf,
    specialFloat?_append (digitsOf_ne_nil n) hdigits, integer?_digitsOf hn]
  rfl

/-! ### Floats -/

theorem writeFloat_toList {x : Binary64} (hfinite : x.isFinite = true) :
    (writeFloat x).toList =
      (if x.negative then ['-'] else []) ++ (x.shortest .away).positional true := by
  have hmagnitude : x.magnitude < Binary64.infinityMagnitude := of_decide_eq_true hfinite
  have hnan : x.isNaN = false := decide_eq_false (by omega)
  have hinfinite : x.isInfinite = false := decide_eq_false (by omega)
  simp [writeFloat, floatLayout, NumberLayout.render, NumberLayout.renderFinite, hnan, hinfinite]

/-- The digits around a point are read with their value, which must be
    finite. -/
theorem digitFloat?_of_setOut {x : Binary64} {d : Decimal} {whole fraction : List Char}
    (hset : d.SetOut whole fraction) (hfinite : x.isFinite = true)
    (hx : Binary64.ofDecimal x.negative d = x) (rest : List Char) :
    digitFloat? ((if x.negative then ['-'] else []) ++ (whole ++ '.' :: fraction) ++ '\n' :: rest)
      = some (.float x, '\n' :: rest) := by
  have hsign :
      sign ((if x.negative then ['-'] else []) ++ (whole ++ '.' :: fraction) ++ '\n' :: rest)
        = (x.negative, whole ++ '.' :: (fraction ++ '\n' :: rest)) := by
    cases x.negative with
    | true => simp [sign]
    | false =>
      have h := sign_append hset.whole_ne_nil hset.isDigit_whole ('.' :: (fraction ++ '\n' :: rest))
      simpa using h
  have hwhole : whole? (whole ++ '.' :: (fraction ++ '\n' :: rest))
      = some (whole, '.' :: (fraction ++ '\n' :: rest)) :=
    whole?_append hset.front hset.isDigit_whole (endsRun_cons (by decide) _)
  have hfraction : fraction? ('.' :: (fraction ++ '\n' :: rest)) = some (fraction, '\n' :: rest) :=
    digits?_append hset.fraction_ne_nil hset.isDigit_fraction (endsRun_lineFeed rest) _
  have hexponent : exponent? ('\n' :: rest) = some (none, '\n' :: rest) := rfl
  have hvalue : Binary64.ofDecimal x.negative ⟨readDigits 0 (whole ++ fraction), -fraction.length⟩
      = x := by
    rw [hset.ofDecimal_eq, hx]
  have hinfinity : x ≠ Binary64.signedInfinity false := by
    rintro rfl
    exact absurd hfinite (by decide)
  unfold digitFloat?
  rw [hsign]
  simp [hwhole, hfraction, hexponent, hset.fraction_ne_nil, hvalue, hinfinity]

/-- A finite float reads back, with its sign also where it is zero. -/
theorem number?_writeFloat {x : Binary64} (hfinite : x.isFinite = true) (rest : List Char) :
    number? ((writeFloat x).toList ++ '\n' :: rest) = some (.float x, '\n' :: rest) := by
  obtain ⟨whole, fraction, htext, hset⟩ := Binary64.exists_setOut_shortest .away hfinite
  have hfloat := digitFloat?_of_setOut hset hfinite (Binary64.ofDecimal_shortest .away hfinite) rest
  -- a minus is no digit, and a point is neither a hyphen nor a colon
  have hdate : datetime? ((writeFloat x).toList ++ '\n' :: rest) = none := by
    rw [writeFloat_toList hfinite, htext]
    cases x.negative with
    | true => exact datetime?_minus _
    | false =>
      have h : datetime? (whole ++ '.' :: (fraction ++ '\n' :: rest)) = none :=
        datetime?_eq_none hset.isDigit_whole (by decide) (by decide) (by decide)
      simpa using h
  unfold number?
  rw [hdate, writeFloat_toList hfinite, htext, hfloat]
  rfl

end EvalRun.Toml
