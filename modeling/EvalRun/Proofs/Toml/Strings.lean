import EvalRun.Toml.Text
import EvalRun.Toml.Writer

/-! # Proofs.Toml.Strings — strings read back as they were written

    A string may hold anything: quotation marks of both kinds, backslashes, line
    ends and control characters. What is in it decides the form it is written
    in, and the reader sees from the first marks which form it is:

    * **Escapes.** A character is written as itself or as an escape, and is read
      back from either (`escapeChar_cases`).
    * **Quotation marks in a row.** Inside triple marks no more than two of them
      stand together. They are read as the string's own, also directly before
      the marks that end it (`ReadsAs.marks`, `readsAs_close`). The invariant is
      the number of marks that stand before the rest of the string.
    * **The start.** The line feed that is written behind the opening marks is
      skipped, and nothing else is (`skipFirstLineEnd_append`).

    So every string reads back, whatever its form (`string?_writeString`).
-/

namespace EvalRun.Toml

/-! ### Escapes -/

/-- The characters, behind a backslash, are an escape for the given one. -/
def IsEscape (e : List Char) (c : Char) : Prop :=
  ∀ behind, escape? (e ++ behind) = some (c, behind) ∧ continuation? (e ++ behind) = none

/-- A control character is read from its number in hexadecimal. -/
theorem hexChar?_hexDigits4 {c : Char} (h : c.toNat < 128) :
    hexChar? (hexDigits4 c.toNat) = some c := by
  have hall : ∀ n < 128, hexChar? (hexDigits4 n) = some (Char.ofNat n) := by decide +kernel
  rw [hall c.toNat h, Char.ofNat_toNat]

theorem isEscape_hexDigits4 {c : Char} (h : c.toNat < 128) :
    IsEscape ('u' :: hexDigits4 c.toNat) c := by
  intro behind
  have hlength : (hexDigits4 c.toNat).length = 4 := rfl
  refine ⟨?_, rfl⟩
  rw [List.cons_append, escape?, if_neg (by rw [List.length_append, hlength]; omega),
    List.take_left' hlength, List.drop_left' hlength, hexChar?_hexDigits4 h]
  rfl

/-- A character other than a quotation mark is written as an escape of itself,
    or as itself if the reader lets it stand. -/
theorem escapeChar_cases (multiline : Bool) {c : Char} :
    (∃ e, escapeChar multiline c = '\\' :: e ∧ IsEscape e c) ∨
    (escapeChar multiline c = [c] ∧ c ≠ '\\' ∧
      (isPlain c = true ∨ multiline = true ∧ c = '\n')) := by
  unfold escapeChar
  -- the named characters first: an escape of one letter is read by computing
  split
  · rename_i h
    subst h
    exact .inl ⟨_, rfl, fun _ => ⟨rfl, rfl⟩⟩
  split
  · rename_i h
    subst h
    exact .inl ⟨_, rfl, fun _ => ⟨rfl, rfl⟩⟩
  split
  · rename_i h
    subst h
    -- a line feed is the only character whose text depends on the form
    cases multiline with
    | true => exact .inr ⟨rfl, by decide, .inr ⟨rfl, rfl⟩⟩
    | false => exact .inl ⟨_, rfl, fun _ => ⟨rfl, rfl⟩⟩
  split
  · rename_i h
    subst h
    exact .inl ⟨_, rfl, fun _ => ⟨rfl, rfl⟩⟩
  split
  · rename_i h
    subst h
    exact .inl ⟨_, rfl, fun _ => ⟨rfl, rfl⟩⟩
  split
  · rename_i h
    subst h
    exact .inl ⟨_, rfl, fun _ => ⟨rfl, rfl⟩⟩
  split
  · rename_i h
    -- the other controls are written by their numbers
    rw [Bool.or_eq_true, decide_eq_true_eq, decide_eq_true_eq] at h
    exact .inl ⟨_, rfl, isEscape_hexDigits4 (by omega)⟩
  · rename_i hbackslash h
    rw [Bool.or_eq_true, decide_eq_true_eq, decide_eq_true_eq, not_or] at h
    have hplain : isPlain c = true := by
      have hrange : 0x20 ≤ c.toNat := by omega
      simp [isPlain, hrange, h.2]
    exact .inr ⟨rfl, hbackslash, .inl hplain⟩

theorem isEscape_quote : IsEscape ['\x22'] '\x22' := fun _ => ⟨rfl, rfl⟩

/-- What is plain is no control character but the tab. -/
theorem ne_of_isPlain {c : Char} (h : isPlain c = true) : c ≠ '\n' ∧ c ≠ '\r' := by
  constructor
  · rintro rfl
    exact absurd h (by decide)
  · rintro rfl
    exact absurd h (by decide)

theorem isPlain_of_needsEscape {c : Char} (h : needsEscape c = false) (hfeed : c ≠ '\n') :
    isPlain c = true := by
  unfold needsEscape at h
  unfold isPlain
  by_cases htab : c = '\t'
  · simp [htab]
  · simp [htab, hfeed] at h ⊢
    omega

/-! ### Strings on one line -/

variable {cs behind : List Char}

/-- A text with escapes reads back as the string, if there is fuel for every
    character. -/
theorem basic?_escapeAll (cs behind : List Char) (fuel : Nat)
    (hfuel : (escapeAll false 0 0 cs).length < fuel) :
    basic? fuel (escapeAll false 0 0 cs ++ '\x22' :: behind) = some (cs, behind) := by
  induction cs generalizing fuel with
  | nil =>
    obtain ⟨fuel, rfl⟩ : ∃ n, fuel = n + 1 := ⟨fuel - 1, by omega⟩
    rfl
  | cons c cs ih =>
    obtain ⟨fuel, rfl⟩ : ∃ n, fuel = n + 1 := ⟨fuel - 1, by omega⟩
    unfold escapeAll at hfuel ⊢
    by_cases hquote : c = '\x22'
    · -- no row of marks is allowed, so every mark is escaped
      subst hquote
      simp only [Nat.lt_irrefl, if_false, if_true, List.length_cons] at hfuel ⊢
      have hrest := ih fuel (by omega)
      simp [basic?, escape?, hrest]
    · simp only [hquote, if_false, List.length_append] at hfuel ⊢
      rcases escapeChar_cases false (c := c) with ⟨e, htext, hescape⟩ | ⟨htext, hbackslash, hplain⟩
      · rw [htext] at hfuel ⊢
        rw [List.length_cons] at hfuel
        have hrest := ih fuel (by omega)
        have hread := (hescape (escapeAll false 0 0 cs ++ '\x22' :: behind)).1
        simp [basic?, hread, hrest]
      · rw [htext] at hfuel ⊢
        rw [List.length_singleton] at hfuel
        have hrest := ih fuel (by omega)
        have hplain : isPlain c = true := by simpa using hplain
        simp [basic?, hquote, hbackslash, hplain, hrest]

/-- A text without escapes reads back if nothing in it has to be escaped. -/
theorem literal?_append (h : ∀ c ∈ cs, isPlain c = true ∧ c ≠ '\x27') :
    literal? (cs ++ '\x27' :: behind) = some (cs, behind) := by
  induction cs with
  | nil => rfl
  | cons c cs ih =>
    obtain ⟨hplain, hmark⟩ := h c List.mem_cons_self
    have hrest := ih fun d hd => h d (List.mem_cons_of_mem c hd)
    simp [literal?, hmark, hplain, hrest]

/-! ### Strings over several lines -/

/-- The text, up to the marks that end it, is read as the string by every fuel
    from its length on. -/
def ReadsAs (mark : Char) (escapes : Bool) (text string behind : List Char) : Prop :=
  ∀ fuel, text.length < fuel → multiline? mark escapes fuel text = some (string, behind)

variable {mark : Char} {escapes : Bool} {text string : List Char}

theorem takeWhile_replicate_append (r : Nat) (h : ∀ c ∈ text.head?, c ≠ mark) :
    (List.replicate r mark ++ text).takeWhile (· = mark) = List.replicate r mark := by
  have htext : text.takeWhile (· = mark) = [] := by
    cases text with
    | nil => rfl
    | cons c rest =>
      have hc : c ≠ mark := h c rfl
      simp [hc]
  rw [List.takeWhile_append_of_pos, htext, List.append_nil]
  intro c hc
  exact decide_eq_true (List.eq_of_mem_replicate hc)

/-- Up to two marks before the closing ones belong to the string. -/
theorem readsAs_close {r : Nat} (hr : r ≤ 2) (h : ∀ c ∈ behind.head?, c ≠ mark) :
    ReadsAs mark escapes (List.replicate (r + 3) mark ++ behind) (List.replicate r mark)
      behind := by
  intro fuel hfuel
  obtain ⟨fuel, rfl⟩ : ∃ n, fuel = n + 1 := ⟨fuel - 1, by omega⟩
  have hmarks : marks mark (List.replicate (r + 3) mark ++ behind)
      = (List.replicate r mark, some behind) := by
    have hown : min r 2 = r := by omega
    unfold marks
    rw [takeWhile_replicate_append _ h, List.length_replicate]
    simp [hown]
  rw [List.replicate_succ, List.cons_append] at hmarks ⊢
  simp [multiline?, hmarks]

/-- Up to two marks before another character belong to the string. -/
theorem ReadsAs.marks {r : Nat} (hread : ReadsAs mark escapes text string behind) (hr : r ≤ 2)
    (h : ∀ c ∈ text.head?, c ≠ mark) :
    ReadsAs mark escapes (List.replicate r mark ++ text) (List.replicate r mark ++ string)
      behind := by
  intro fuel hfuel
  rw [List.length_append, List.length_replicate] at hfuel
  by_cases hzero : r = 0
  · -- no mark, and nothing is read before the text
    subst hzero
    exact hread fuel (by omega)
  · obtain ⟨r, rfl⟩ : ∃ n, r = n + 1 := ⟨r - 1, by omega⟩
    obtain ⟨fuel, rfl⟩ : ∃ n, fuel = n + 1 := ⟨fuel - 1, by omega⟩
    have hrest := hread fuel (by omega)
    have hmarks : Toml.marks mark (List.replicate (r + 1) mark ++ text)
        = (List.replicate (r + 1) mark, none) := by
      unfold Toml.marks
      rw [takeWhile_replicate_append _ h, List.length_replicate]
      simp only
      rw [if_pos (by omega)]
    have hdrop : (List.replicate (r + 1) mark ++ text).drop (r + 1) = text :=
      List.drop_left' List.length_replicate
    have hcons : List.replicate (r + 1) mark ++ text
        = mark :: (List.replicate r mark ++ text) := by
      rw [List.replicate_succ, List.cons_append]
    rw [hcons] at hmarks hdrop ⊢
    simp only [multiline?, if_true, hmarks, List.length_replicate, hdrop, hrest]
    rfl

/-- A character that is let stand is read as itself. -/
theorem ReadsAs.cons {c : Char} (hread : ReadsAs mark escapes text string behind) (hmark : c ≠ mark)
    (hescapes : c = '\\' → escapes = false) (hc : isPlain c = true ∨ c = '\n') :
    ReadsAs mark escapes (c :: text) (c :: string) behind := by
  intro fuel hfuel
  rw [List.length_cons] at hfuel
  obtain ⟨fuel, rfl⟩ : ∃ n, fuel = n + 1 := ⟨fuel - 1, by omega⟩
  have hrest := hread fuel (by omega)
  have hescape : ¬ (c = '\\' ∧ escapes = true) := by
    rintro ⟨hbackslash, htrue⟩
    rw [hescapes hbackslash] at htrue
    cases htrue
  rcases hc with hplain | rfl
  · -- no line end, for which the reader looks first
    obtain ⟨hfeed, hreturn⟩ := ne_of_isPlain hplain
    have hend : lineEnd? (c :: text) = none := by
      unfold lineEnd?
      split
      · rename_i heq
        exact absurd (List.cons.inj heq).1 hfeed
      · rename_i heq
        exact absurd (List.cons.inj heq).1 hreturn
      · rfl
    simp [multiline?, hmark, hescape, hend, hplain, hrest]
  · simp [multiline?, hmark, lineEnd?, hrest]

/-- An escape is read as its character. -/
theorem ReadsAs.escape {c : Char} {e : List Char} (hread : ReadsAs mark true text string behind)
    (hmark : '\\' ≠ mark) (he : IsEscape e c) :
    ReadsAs mark true ('\\' :: (e ++ text)) (c :: string) behind := by
  intro fuel hfuel
  rw [List.length_cons, List.length_append] at hfuel
  obtain ⟨fuel, rfl⟩ : ∃ n, fuel = n + 1 := ⟨fuel - 1, by omega⟩
  have hrest := hread fuel (by omega)
  obtain ⟨hescape, hcontinuation⟩ := he text
  simp [multiline?, hmark, hcontinuation, hescape, hrest]

/-- What follows a character that was written does not start with a mark that
    was not. -/
theorem head?_escapeChar_ne {multiline : Bool} {c : Char} (hquote : c ≠ '\x22') (text : List Char) :
    ∀ d ∈ (escapeChar multiline c ++ text).head?, d ≠ '\x22' := by
  intro d hd
  rcases escapeChar_cases multiline (c := c) with ⟨e, htext, -⟩ | ⟨htext, -, -⟩
  · rw [htext] at hd
    obtain rfl : '\\' = d := by simpa using hd
    decide
  · rw [htext] at hd
    obtain rfl : c = d := by simpa using hd
    exact hquote

/-- A text with escapes inside triple marks reads back, with the marks that
    stand before it. -/
theorem readsAs_escapeAll (cs : List Char) {row : Nat} (hrow : row ≤ 2)
    (h : ∀ c ∈ behind.head?, c ≠ '\x22') :
    ReadsAs '\x22' true
      (List.replicate row '\x22' ++
        (escapeAll true 2 row cs ++ (List.replicate 3 '\x22' ++ behind)))
      (List.replicate row '\x22' ++ cs) behind := by
  -- the marks before the rest of the string are part of what is read, since the
  -- reader takes a whole row at once
  induction cs generalizing row with
  | nil =>
    -- the row runs on into the closing marks
    have hclose : ReadsAs '\x22' true _ _ behind := readsAs_close hrow h
    rw [← List.replicate_append_replicate, List.append_assoc] at hclose
    simpa [escapeAll] using hclose
  | cons c cs ih =>
    unfold escapeAll
    by_cases hquote : c = '\x22'
    · subst hquote
      rw [if_pos rfl]
      by_cases hlt : row < 2
      · -- one more mark in the row
        rw [if_pos hlt]
        have hlast : row + 1 ≤ 2 := hlt
        have hnext := ih hlast
        rwa [List.replicate_succ', List.append_assoc, List.append_assoc] at hnext
      · -- a third mark is escaped, which ends the row
        rw [if_neg hlt]
        have hnext : ReadsAs '\x22' true _ _ behind := ih (Nat.zero_le 2)
        exact (hnext.escape (by decide) isEscape_quote).marks hrow (by simp)
    · rw [if_neg hquote, List.append_assoc]
      have hnext : ReadsAs '\x22' true _ _ behind := ih (Nat.zero_le 2)
      refine ReadsAs.marks ?_ hrow (head?_escapeChar_ne hquote _)
      rcases escapeChar_cases true (c := c) with ⟨e, htext, hescape⟩ | ⟨htext, hbackslash, hplain⟩
      · rw [htext]
        exact hnext.escape (by decide) hescape
      · rw [htext]
        refine hnext.cons hquote (fun heq => absurd heq hbackslash) ?_
        rcases hplain with hplain | ⟨-, hfeed⟩
        · exact .inl hplain
        · exact .inr hfeed

theorem le_longestRun (mark : Char) (current longest : Nat) (cs : List Char) :
    current ≤ longestRun mark current longest cs := by
  have hlongest (current longest : Nat) (cs : List Char) :
      max current longest ≤ longestRun mark current longest cs := by
    induction cs generalizing current longest with
    | nil => exact Nat.le_refl _
    | cons c cs ih =>
      unfold longestRun
      split
      · have := ih (current + 1) longest
        omega
      · have := ih 0 (max current longest)
        omega
  have := hlongest current longest cs
  omega

/-- A text without escapes inside triple marks reads back if no more than two
    marks stand together in it. -/
theorem readsAs_append {row longest : Nat} (hruns : longestRun mark row longest cs ≤ 2)
    (hplain : ∀ c ∈ cs, isPlain c = true ∨ c = '\n') (h : ∀ c ∈ behind.head?, c ≠ mark) :
    ReadsAs mark false
      (List.replicate row mark ++ (cs ++ (List.replicate 3 mark ++ behind)))
      (List.replicate row mark ++ cs) behind := by
  have hrow : row ≤ 2 := Nat.le_trans (le_longestRun mark row longest cs) hruns
  -- the same induction; here the longest run of the string keeps the row short
  induction cs generalizing row longest with
  | nil =>
    have hclose : ReadsAs mark false _ _ behind := readsAs_close hrow h
    rw [← List.replicate_append_replicate, List.append_assoc] at hclose
    simpa using hclose
  | cons c cs ih =>
    have hrest : ∀ d ∈ cs, isPlain d = true ∨ d = '\n' :=
      fun d hd => hplain d (List.mem_cons_of_mem c hd)
    unfold longestRun at hruns
    by_cases hmark : c = mark
    · subst hmark
      rw [if_pos rfl] at hruns
      have hnext := ih hruns hrest (Nat.le_trans (le_longestRun c (row + 1) longest cs) hruns)
      rwa [List.replicate_succ', List.append_assoc, List.append_assoc] at hnext
    · rw [if_neg hmark] at hruns
      have hnext : ReadsAs mark false _ _ behind := ih hruns hrest (by omega)
      have hone := hnext.cons hmark (fun _ => rfl) (hplain c List.mem_cons_self)
      exact hone.marks hrow (by simpa using hmark)

/-! ### Strings of any form -/

/-- The line feed behind the opening marks is skipped, and where none is written
    nothing is. -/
theorem skipFirstLineEnd_append (written : Bool) (h : written = false →
    ∀ c ∈ text.head?, c ≠ '\n' ∧ c ≠ '\r') :
    skipFirstLineEnd ((if written then ['\n'] else []) ++ text) = text := by
  cases written with
  | true => rfl
  | false =>
    have hend : lineEnd? text = none := by
      unfold lineEnd?
      split
      · exact absurd rfl (h rfl '\n' rfl).1
      · exact absurd rfl (h rfl '\r' rfl).2
      · rfl
    simp [skipFirstLineEnd, hend]

/-- The first character of a text with escapes is no line end, unless the string
    starts with a line feed. -/
theorem head?_escapeAll_ne (hfeed : '\n' ∉ cs) (h : ∀ c ∈ text.head?, c ≠ '\n' ∧ c ≠ '\r') :
    ∀ c ∈ (escapeAll true 2 0 cs ++ text).head?, c ≠ '\n' ∧ c ≠ '\r' := by
  cases cs with
  | nil => exact h
  | cons c cs =>
    intro d hd
    unfold escapeAll at hd
    by_cases hquote : c = '\x22'
    · obtain rfl : c = d := by simpa [hquote] using hd
      rw [hquote]
      decide
    · rw [if_neg hquote] at hd
      rcases escapeChar_cases true (c := c) with ⟨e, htext, -⟩ | ⟨htext, -, hplain⟩
      · rw [htext] at hd
        obtain rfl : '\\' = d := by simpa using hd
        decide
      · rw [htext] at hd
        obtain rfl : c = d := by simpa using hd
        rcases hplain with hplain | ⟨-, rfl⟩
        · exact ne_of_isPlain hplain
        · exact absurd List.mem_cons_self hfeed

/-- Without a control character, everything but a line feed stands for itself. -/
theorem isPlain_of_any_needsEscape (h : cs.any needsEscape = false) :
    ∀ c ∈ cs, c ≠ '\n' → isPlain c = true := by
  intro c hc hfeed
  rw [List.any_eq_false] at h
  have hnone : needsEscape c = false := by simpa using h c hc
  exact isPlain_of_needsEscape hnone hfeed

/-- Single marks hold what has no single mark and no line feed in it. -/
theorem of_formOf_literal (h : formOf cs = .literal) :
    ∀ c ∈ cs, isPlain c = true ∧ c ≠ '\x27' := by
  have hnone : cs.any needsEscape = false ∧ '\x27' ∉ cs ∧ '\n' ∉ cs := by
    simp only [formOf] at h
    grind
  obtain ⟨hcontrols, hmark, hfeed⟩ := hnone
  intro c hc
  have hmark_ne : c ≠ '\x27' := fun heq => hmark (heq ▸ hc)
  have hfeed_ne : c ≠ '\n' := fun heq => hfeed (heq ▸ hc)
  exact ⟨isPlain_of_any_needsEscape hcontrols c hc hfeed_ne, hmark_ne⟩

/-- Triple single marks hold what has no more than two of them in a row. -/
theorem of_formOf_multilineLiteral (h : formOf cs = .multilineLiteral) :
    (∀ c ∈ cs, isPlain c = true ∨ c = '\n') ∧ longestRun '\x27' 0 0 cs ≤ 2 := by
  have hnone : cs.any needsEscape = false ∧ longestRun '\x27' 0 0 cs ≤ 2 := by
    simp only [formOf] at h
    grind
  obtain ⟨hcontrols, hruns⟩ := hnone
  refine ⟨?_, hruns⟩
  intro c hc
  by_cases hfeed : c = '\n'
  · exact .inr hfeed
  · exact .inl (isPlain_of_any_needsEscape hcontrols c hc hfeed)

/-- One quotation mark that no other follows opens a string on one line. -/
theorem string?_quote (h : ∀ c ∈ text.head?, c ≠ '\x22') :
    string? ('\x22' :: text) = basic? (text.length + 2) text := by
  unfold string?
  split
  · rename_i heq
    obtain rfl := (List.cons.inj heq).2
    exact absurd rfl (h '\x22' rfl)
  · rename_i heq
    cases (List.cons.inj heq).1
  · rename_i heq
    rw [← (List.cons.inj heq).2]
    rfl
  · rename_i heq
    cases (List.cons.inj heq).1
  · rename_i hnone _
    exact absurd rfl (hnone text)

theorem string?_apostrophe (h : ∀ c ∈ text.head?, c ≠ '\x27') :
    string? ('\x27' :: text) = literal? text := by
  unfold string?
  split
  · rename_i heq
    cases (List.cons.inj heq).1
  · rename_i heq
    obtain rfl := (List.cons.inj heq).2
    exact absurd rfl (h '\x27' rfl)
  · rename_i heq
    cases (List.cons.inj heq).1
  · rename_i heq
    rw [← (List.cons.inj heq).2]
  · rename_i hnone
    exact absurd rfl (hnone text)

theorem string?_writeStringAs_basic (cs rest : List Char) :
    string? (writeStringAs .basic cs ++ '\n' :: rest) = some (cs, '\n' :: rest) := by
  have htext : writeStringAs .basic cs ++ '\n' :: rest
      = '\x22' :: (escapeAll false 0 0 cs ++ '\x22' :: '\n' :: rest) := by
    simp [writeStringAs]
  rw [htext]
  -- two marks with a line feed behind them are the empty string, not an opening
  cases cs with
  | nil => rfl
  | cons c cs =>
    have hhead : ∀ d ∈ (escapeAll false 0 0 (c :: cs) ++ '\x22' :: '\n' :: rest).head?,
        d ≠ '\x22' := by
      unfold escapeAll
      by_cases hquote : c = '\x22'
      · simp [hquote]
      · rw [if_neg hquote, List.append_assoc]
        exact head?_escapeChar_ne hquote _
    rw [string?_quote hhead]
    apply basic?_escapeAll
    rw [List.length_append]
    omega

theorem string?_writeStringAs_literal (h : ∀ c ∈ cs, isPlain c = true ∧ c ≠ '\x27')
    (rest : List Char) :
    string? (writeStringAs .literal cs ++ '\n' :: rest) = some (cs, '\n' :: rest) := by
  have htext : writeStringAs .literal cs ++ '\n' :: rest
      = '\x27' :: (cs ++ '\x27' :: '\n' :: rest) := by
    simp [writeStringAs]
  rw [htext]
  cases hcs : cs with
  | nil => rfl
  | cons c tail =>
    have hmark : c ≠ '\x27' := (h c (hcs ▸ List.mem_cons_self)).2
    rw [string?_apostrophe (by simpa using hmark)]
    exact literal?_append (hcs ▸ h)

/-- What stands between triple marks, behind the line feed that is skipped, is
    read as the string. -/
theorem string?_triple {escapes : Bool} (hmark : mark = '\x22' ∧ escapes = true ∨
      mark = '\x27' ∧ escapes = false) (written : Bool)
    (hread : ReadsAs mark escapes text string behind)
    (h : written = false → ∀ c ∈ text.head?, c ≠ '\n' ∧ c ≠ '\r') :
    string? (List.replicate 3 mark ++ ((if written then ['\n'] else []) ++ text))
      = some (string, behind) := by
  have hskip := skipFirstLineEnd_append written h
  have hfuel : text.length < (List.replicate 3 mark
      ++ ((if written then ['\n'] else []) ++ text)).length + 1 := by
    simp only [List.length_append]
    omega
  have hstring : string? (List.replicate 3 mark ++ ((if written then ['\n'] else []) ++ text))
      = multiline? mark escapes ((List.replicate 3 mark
          ++ ((if written then ['\n'] else []) ++ text)).length + 1)
          (skipFirstLineEnd ((if written then ['\n'] else []) ++ text)) := by
    rcases hmark with ⟨rfl, rfl⟩ | ⟨rfl, rfl⟩ <;> rfl
  rw [hstring, hskip]
  exact hread _ hfuel

theorem writeStringAs_multilineBasic (cs rest : List Char) :
    writeStringAs .multilineBasic cs ++ rest = List.replicate 3 '\x22' ++
      ((if cs.contains '\n' then ['\n'] else []) ++
        (escapeAll true 2 0 cs ++ (List.replicate 3 '\x22' ++ rest))) := by
  simp [writeStringAs]

theorem writeStringAs_multilineLiteral (cs rest : List Char) :
    writeStringAs .multilineLiteral cs ++ rest = List.replicate 3 '\x27' ++
      ((if cs.contains '\n' then ['\n'] else []) ++ (cs ++ (List.replicate 3 '\x27' ++ rest))) := by
  simp [writeStringAs]

/-- Every string reads back, up to the line feed behind it. -/
theorem string?_writeString (s : String) (rest : List Char) :
    string? (writeString s ++ '\n' :: rest) = some (s.toList, '\n' :: rest) := by
  have hfeed (hnone : s.toList.contains '\n' = false) : '\n' ∉ s.toList := by
    simpa using hnone
  unfold writeString
  cases hform : formOf s.toList with
  | basic => exact string?_writeStringAs_basic s.toList rest
  | literal => exact string?_writeStringAs_literal (of_formOf_literal hform) rest
  | multilineBasic =>
    rw [writeStringAs_multilineBasic]
    have hread : ReadsAs '\x22' true _ _ ('\n' :: rest) :=
      readsAs_escapeAll s.toList (Nat.zero_le 2) (by simp)
    exact string?_triple (.inl ⟨rfl, rfl⟩) _ hread
      fun hnone => head?_escapeAll_ne (hfeed hnone) (by simp)
  | multilineLiteral =>
    obtain ⟨hplain, hruns⟩ := of_formOf_multilineLiteral hform
    rw [writeStringAs_multilineLiteral]
    have hread : ReadsAs '\x27' false _ _ ('\n' :: rest) :=
      readsAs_append hruns hplain (by simp)
    refine string?_triple (.inr ⟨rfl, rfl⟩) _ hread ?_
    -- nothing is skipped by mistake: a plain character is no line end
    intro hnone c hc
    cases hcs : s.toList with
    | nil =>
      rw [hcs] at hc
      obtain rfl : '\x27' = c := by simpa using hc
      decide
    | cons d tail =>
      rw [hcs] at hc
      obtain rfl : d = c := by simpa using hc
      have hmem : d ∈ s.toList := hcs ▸ List.mem_cons_self
      rcases hplain d hmem with hd | rfl
      · exact ne_of_isPlain hd
      · exact absurd hmem (hfeed hnone)

end EvalRun.Toml
