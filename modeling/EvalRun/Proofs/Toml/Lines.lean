import EvalRun.Proofs.Toml.Numbers
import EvalRun.Proofs.Toml.Strings

/-! # Proofs.Toml.Lines — written lines read back as statements

    A document is written line by line, and the reader takes it line by line:

    * **Settings.** The text of a setting is read as its value, whatever kind of
      value it is (`value?_writeScalar`), so its line is an assignment
      (`statement?_setting`).
    * **Sections.** A section starts with its header (`statement?_header`).
    * **Documents.** Lines are put before a text that is read already
      (`ReadsTo.line`), so the statements of a document are those of its parts
      one after the other (`ReadsTo.settings`, `readsTo_sections`).

    Numbers beyond the largest integer have no text, and nothing else has none
    (`writeSections?_isSome_iff`).
-/

namespace EvalRun.Toml

/-! ### Values -/

namespace Scalar

/-- The value that a setting is read as. -/
def value : Scalar → Value
  | .string s => .string s
  | .natural n => .integer n
  | .float x => .float x
  | .boolean b => .boolean b

/-- A number has a text if it is not beyond the largest integer; everything else
    has one. -/
def Fits : Scalar → Prop
  | .natural n => n ≤ maxInteger
  | _ => True

/-- A float is a finite number. -/
def IsFinite : Scalar → Prop
  | .float x => x.isFinite = true
  | _ => True

end Scalar

theorem writeScalar?_isSome_iff (s : Scalar) : (writeScalar? s).isSome = true ↔ s.Fits := by
  cases s with
  | natural n =>
    simp only [writeScalar?, Scalar.Fits]
    split
    · rename_i h
      simp [h]
    · rename_i h
      simp [h]
  | string s => simp [writeScalar?, Scalar.Fits]
  | float x => simp [writeScalar?, Scalar.Fits]
  | boolean b => simp [writeScalar?, Scalar.Fits]

/-- What starts with something other than a blank. -/
def StartsValue (cs : List Char) : Prop := ∃ c rest, cs = c :: rest ∧ isBlank c = false

theorem skipBlanks_of_startsValue {cs : List Char} (h : StartsValue cs) : skipBlanks cs = cs := by
  obtain ⟨c, rest, rfl, hc⟩ := h
  simp [skipBlanks, hc]

/-- A quotation mark starts a string. -/
theorem value?_of_quote {c : Char} {rest : List Char} {s behind : List Char}
    (hc : c = '\x22' ∨ c = '\x27') (h : string? (c :: rest) = some (s, behind)) :
    StartsValue (c :: rest) ∧ value? (c :: rest) = some (.string (String.ofList s), behind) := by
  unfold value? valueAt?
  rcases hc with rfl | rfl
  · exact ⟨⟨_, _, rfl, rfl⟩, by simp [h]⟩
  · exact ⟨⟨_, _, rfl, rfl⟩, by simp [h]⟩

/-- A minus or a digit starts a number. -/
theorem value?_of_digit {c : Char} {rest behind : List Char} {v : Value}
    (hc : c = '-' ∨ c.isDigit = true) (h : number? (c :: rest) = some (v, behind)) :
    StartsValue (c :: rest) ∧ value? (c :: rest) = some (v, behind) := by
  -- the reader asks for marks, brackets and braces first
  have hother (d : Char) (hminus : '-' ≠ d) (hdigit : d.isDigit = false) : c ≠ d := by
    rintro rfl
    rcases hc with rfl | htrue
    · exact hminus rfl
    · rw [htrue] at hdigit
      cases hdigit
  have hspace := hother ' ' (by decide) (by decide)
  have htab := hother '\t' (by decide) (by decide)
  have hquote := hother '\x22' (by decide) (by decide)
  have happostrophe := hother '\x27' (by decide) (by decide)
  have hbracket := hother '[' (by decide) (by decide)
  have hbrace := hother '\x7b' (by decide) (by decide)
  constructor
  · exact ⟨c, rest, rfl, by simp [isBlank, hspace, htab]⟩
  · unfold value? valueAt?
    simp [hquote, happostrophe, hbracket, hbrace, or_assoc, hc, h]

theorem exists_writeString_eq (s : String) :
    ∃ c rest, writeString s = c :: rest ∧ (c = '\x22' ∨ c = '\x27') := by
  unfold writeString
  cases formOf s.toList with
  | basic => exact ⟨'\x22', _, rfl, .inl rfl⟩
  | literal => exact ⟨'\x27', _, rfl, .inr rfl⟩
  | multilineBasic => exact ⟨'\x22', _, rfl, .inl rfl⟩
  | multilineLiteral => exact ⟨'\x27', _, rfl, .inr rfl⟩

theorem exists_digitsOf_eq (n : Nat) :
    ∃ c rest, digitsOf n = c :: rest ∧ (c = '-' ∨ c.isDigit = true) := by
  obtain ⟨c, rest, heq⟩ := List.exists_cons_of_ne_nil (digitsOf_ne_nil n)
  exact ⟨c, rest, heq, .inr (isDigit_of_mem_digitsOf (heq ▸ List.mem_cons_self))⟩

theorem exists_writeFloat_eq {x : Binary64} (hfinite : x.isFinite = true) :
    ∃ c rest, (writeFloat x).toList = c :: rest ∧ (c = '-' ∨ c.isDigit = true) := by
  obtain ⟨whole, fraction, htext, hset⟩ := Binary64.exists_setOut_shortest .away hfinite
  rw [writeFloat_toList hfinite, htext]
  cases x.negative with
  | true => exact ⟨'-', _, rfl, .inl rfl⟩
  | false =>
    obtain ⟨c, digits, rfl⟩ := List.exists_cons_of_ne_nil hset.whole_ne_nil
    exact ⟨c, _, rfl, .inr (hset.isDigit_whole c List.mem_cons_self)⟩

/-- The text of a setting, at the end of a line, is read as the value of the
    setting. -/
theorem value?_writeScalar {s : Scalar} {text : List Char} (h : writeScalar? s = some text)
    (hfinite : s.IsFinite) (rest : List Char) :
    StartsValue (text ++ '\n' :: rest) ∧
      value? (text ++ '\n' :: rest) = some (s.value, '\n' :: rest) := by
  cases s with
  | string s =>
    obtain rfl := Option.some.inj h
    obtain ⟨c, tail, heq, hc⟩ := exists_writeString_eq s
    have hread := string?_writeString s rest
    rw [heq, List.cons_append] at hread ⊢
    have hvalue := value?_of_quote hc hread
    rwa [String.ofList_toList] at hvalue
  | natural n =>
    -- there is a text, so the number has 64 bits with sign
    have hfits : n ≤ maxInteger := (writeScalar?_isSome_iff (.natural n)).1 (by simp [h])
    obtain rfl : digitsOf n = text := by simpa [writeScalar?, hfits] using h
    obtain ⟨c, tail, heq, hc⟩ := exists_digitsOf_eq n
    have hread := number?_digitsOf hfits rest
    rw [heq, List.cons_append] at hread ⊢
    exact value?_of_digit hc hread
  | float x =>
    obtain rfl := Option.some.inj h
    obtain ⟨c, tail, heq, hc⟩ := exists_writeFloat_eq hfinite
    have hread := number?_writeFloat hfinite rest
    rw [heq, List.cons_append] at hread ⊢
    exact value?_of_digit hc hread
  | boolean b =>
    obtain rfl := Option.some.inj h
    cases b with
    | true => exact ⟨⟨_, _, rfl, rfl⟩, rfl⟩
    | false => exact ⟨⟨_, _, rfl, rfl⟩, rfl⟩

/-! ### Keys -/

/-- A key that is written without quotation marks. -/
def IsBareKey (key : String) : Prop := key.toList ≠ [] ∧ key.toList.all isBare = true

instance (key : String) : Decidable (IsBareKey key) := inferInstanceAs (Decidable (_ ∧ _))

variable {key : String}

theorem IsBareKey.isBare (h : IsBareKey key) : ∀ c ∈ key.toList, isBare c = true :=
  List.all_eq_true.1 h.2

/-- The characters that mean something else than a bare key at the start of a
    line. -/
def lineMarks : List Char := ['\x22', '\x27', '[', '#', '\n', '\r', '\uFEFF']

theorem IsBareKey.exists_cons (h : IsBareKey key) :
    ∃ c rest, key.toList = c :: rest ∧ isBlank c = false ∧ c ∉ lineMarks := by
  obtain ⟨c, rest, heq⟩ := List.exists_cons_of_ne_nil h.1
  have hc : Toml.isBare c = true := h.isBare c (heq ▸ List.mem_cons_self)
  have hblank : isBlank c = false := by
    rw [isBlank, Bool.or_eq_false_iff, decide_eq_false_iff_not, decide_eq_false_iff_not]
    constructor <;> rintro rfl <;> exact absurd hc (by decide)
  refine ⟨c, rest, heq, hblank, ?_⟩
  have hnone : lineMarks.any Toml.isBare = false := rfl
  rw [List.any_eq_false] at hnone
  exact fun hmem => hnone c hmem hc

/-- What starts with a bare key starts with no other mark. -/
theorem IsBareKey.append_ne (h : IsBareKey key) {c : Char} (hc : c ∈ lineMarks)
    (behind rest : List Char) : key.toList ++ behind ≠ c :: rest := by
  obtain ⟨d, tail, heq, -, hother⟩ := h.exists_cons
  intro hcons
  rw [heq, List.cons_append, List.cons.injEq] at hcons
  rw [← hcons.1] at hc
  exact hother hc

/-- A bare key is read up to the first character that is not bare. -/
theorem simpleKey?_append (h : IsBareKey key) {d : Char} (hd : isBare d = false)
    (behind : List Char) : simpleKey? (key.toList ++ d :: behind) = some (key, d :: behind) := by
  have htake : (key.toList ++ d :: behind).takeWhile isBare = key.toList := by
    rw [List.takeWhile_append_of_pos h.isBare]
    simp [hd]
  have hdrop : (key.toList ++ d :: behind).dropWhile isBare = d :: behind := by
    rw [List.dropWhile_append_of_pos h.isBare]
    simp [hd]
  have hempty : key.toList.isEmpty = false := by simpa using h.1
  unfold simpleKey?
  split
  · rename_i hquote
    exact absurd hquote (h.append_ne (by decide) _ _)
  · rename_i hquote
    exact absurd hquote (h.append_ne (by decide) _ _)
  · simp only [htake, hdrop, hempty, Bool.false_eq_true, if_false, String.ofList_toList]

/-- A bare key is a whole key unless a dot makes it longer. -/
theorem key?_append (h : IsBareKey key) {d e : Char} {behind after : List Char}
    (hd : isBare d = false) (hbehind : skipBlanks (d :: behind) = e :: after) (he : e ≠ '.') :
    key? (key.toList ++ d :: behind) = some (([], key), e :: after) := by
  have hskip : skipBlanks (key.toList ++ d :: behind) = key.toList ++ d :: behind := by
    obtain ⟨c, rest, heq, hblank, -⟩ := h.exists_cons
    exact skipBlanks_of_startsValue ⟨c, _, by rw [heq, List.cons_append], hblank⟩
  have hparts : keyParts? (maxKeyParts - 1) (key.toList ++ d :: behind)
      = some ([key], e :: after) := by
    have hfuel : maxKeyParts - 1 = 78 + 1 := rfl
    rw [hfuel]
    unfold keyParts?
    rw [hskip, simpleKey?_append h hd]
    dsimp only [bind, Option.bind]
    rw [hbehind]
    split
    · rename_i hdot
      exact absurd (List.cons.inj hdot).1 he
    · rfl
  unfold key?
  rw [hparts]
  rfl

/-! ### Statements -/

theorem writeSetting?_eq_some_iff {s : Scalar} {line : List Char} :
    writeSetting? key s = some line ↔
      ∃ text, writeScalar? s = some text ∧
        line = key.toList ++ ' ' :: '=' :: ' ' :: (text ++ ['\n']) := by
  unfold writeSetting?
  rw [Option.map_eq_some_iff]
  apply exists_congr
  intro text
  simp [eq_comm]

/-- The line of a setting is an assignment of its value. -/
theorem statement?_setting {s : Scalar} {line : List Char} (hkey : IsBareKey key)
    (hfinite : s.IsFinite) (h : writeSetting? key s = some line) (rest : List Char) :
    statement? (line ++ rest) = some (.assignment [] key s.value, '\n' :: rest) := by
  obtain ⟨text, htext, rfl⟩ := writeSetting?_eq_some_iff.1 h
  obtain ⟨hstarts, hvalue⟩ := value?_writeScalar htext hfinite rest
  have hline : key.toList ++ ' ' :: '=' :: ' ' :: (text ++ ['\n']) ++ rest
      = key.toList ++ ' ' :: '=' :: ' ' :: (text ++ '\n' :: rest) := by
    simp
  have hread : key? (key.toList ++ ' ' :: '=' :: ' ' :: (text ++ '\n' :: rest))
      = some (([], key), '=' :: ' ' :: (text ++ '\n' :: rest)) :=
    key?_append hkey (by decide) rfl (by decide)
  have hskip : skipBlanks (' ' :: (text ++ '\n' :: rest)) = text ++ '\n' :: rest :=
    skipBlanks_of_startsValue hstarts
  rw [hline]
  unfold statement?
  split
  · rename_i hbrackets
    exact absurd hbrackets (hkey.append_ne (by decide) _ _)
  · rename_i hbracket
    exact absurd hbracket (hkey.append_ne (by decide) _ _)
  · rw [hread]
    simp only [bind, Option.bind, hskip, hvalue]

/-- A name in brackets is a header. -/
theorem statement?_header (hkey : IsBareKey key) (rest : List Char) :
    statement? ('[' :: (key.toList ++ ']' :: rest)) = some (.header [] key, rest) := by
  have hread : key? (key.toList ++ ']' :: rest) = some (([], key), ']' :: rest) :=
    key?_append hkey (by decide) rfl (by decide)
  have hheader : header? [']'] (key.toList ++ ']' :: rest) = some (([], key), rest) := by
    unfold header?
    rw [hread]
    rfl
  unfold statement?
  split
  · -- one bracket only: the name does not start with another
    rename_i hbrackets
    exact absurd (List.cons.inj hbrackets).2 (hkey.append_ne (by decide) _ _)
  · rename_i hbracket
    rw [← (List.cons.inj hbracket).2, hheader]
    rfl
  · rename_i hnone
    exact absurd rfl (hnone _)

/-! ### Documents -/

/-- The text is read as the statements by every fuel from its length on. -/
def ReadsTo (cs : List Char) (statements : List Statement) : Prop :=
  ∀ fuel, cs.length < fuel → statements? fuel cs = some statements

variable {cs rest : List Char} {statements : List Statement}

theorem readsTo_nil : ReadsTo [] [] := by
  intro fuel hfuel
  obtain ⟨fuel, rfl⟩ : ∃ n, fuel = n + 1 := ⟨fuel - 1, by omega⟩
  rfl

/-- A blank line says nothing. -/
theorem ReadsTo.blank (h : ReadsTo rest statements) : ReadsTo ('\n' :: rest) statements := by
  intro fuel hfuel
  rw [List.length_cons] at hfuel
  obtain ⟨fuel, rfl⟩ : ∃ n, fuel = n + 1 := ⟨fuel - 1, by omega⟩
  have hrest := h fuel (by omega)
  exact hrest

/-- One more line is put before a text. -/
theorem ReadsTo.line {c : Char} {s : Statement} (h : ReadsTo rest statements)
    (hs : statement? (c :: cs) = some (s, '\n' :: rest)) (hlength : rest.length ≤ cs.length)
    (hblank : isBlank c = false) (hc : c ∉ ['#', '\n', '\r']) :
    ReadsTo (c :: cs) (s :: statements) := by
  intro fuel hfuel
  rw [List.length_cons] at hfuel
  obtain ⟨fuel, rfl⟩ : ∃ n, fuel = n + 1 := ⟨fuel - 1, by omega⟩
  have hrest := h fuel (by omega)
  have hskip : skipBlanks (c :: cs) = c :: cs := skipBlanks_of_startsValue ⟨c, cs, rfl, hblank⟩
  have hend : endOfLine? ('\n' :: rest) = some rest := rfl
  have hstart : ¬ (c = '#' ∨ c = '\n' ∨ c = '\r') := by simpa using hc
  unfold statements?
  simp [hskip, or_assoc, hstart, hs, hend, hrest]

/-- The line of a setting is put before a text. -/
theorem ReadsTo.setting {s : Scalar} {line : List Char} (h : ReadsTo rest statements)
    (hkey : IsBareKey key) (hfinite : s.IsFinite) (hline : writeSetting? key s = some line) :
    ReadsTo (line ++ rest) (.assignment [] key s.value :: statements) := by
  have hs := statement?_setting hkey hfinite hline rest
  obtain ⟨text, htext, rfl⟩ := writeSetting?_eq_some_iff.1 hline
  obtain ⟨c, tail, heq, hblank, hother⟩ := hkey.exists_cons
  rw [heq, List.cons_append, List.cons_append] at hs ⊢
  refine h.line hs ?_ hblank ?_
  · simp only [List.length_append, List.length_cons]
    omega
  · have hmarks : ['#', '\n', '\r'].Sublist lineMarks := by decide
    exact fun hmem => hother (hmarks.subset hmem)

/-- The assignments of settings. -/
def assignments (settings : Settings) : List Statement :=
  settings.map fun (key, s) => .assignment [] key s.value

/-- All keys are bare, and all floats finite. -/
def Readable (settings : Settings) : Prop :=
  ∀ setting ∈ settings, IsBareKey setting.1 ∧ setting.2.IsFinite

/-- The lines of settings are put before a text. -/
theorem ReadsTo.settings {settings : Settings} {lines : List Char} (h : ReadsTo rest statements)
    (hreadable : Readable settings) (hlines : writeSettings? settings = some lines) :
    ReadsTo (lines ++ rest) (assignments settings ++ statements) := by
  -- on the settings, the first of which is put before the text of the others
  induction settings generalizing lines with
  | nil =>
    obtain rfl := Option.some.inj hlines
    exact h
  | cons setting settings ih =>
    obtain ⟨key, s⟩ := setting
    simp only [writeSettings?, bind, Option.bind_eq_some_iff] at hlines
    obtain ⟨line, hline, more, hmore, heq⟩ := hlines
    obtain rfl := Option.some.inj heq
    obtain ⟨hkey, hfinite⟩ := hreadable (key, s) List.mem_cons_self
    have hrest := ih (fun setting hmem => hreadable setting (List.mem_cons_of_mem _ hmem)) hmore
    rw [List.append_assoc]
    exact hrest.setting hkey hfinite hline

/-- The statements of sections: a header for each, and its assignments. -/
def sectionStatements (sections : List (String × Settings)) : List Statement :=
  sections.flatMap fun (name, settings) => .header [] name :: assignments settings

/-- The lines of sections are a text of their headers and assignments. -/
theorem readsTo_sections {sections : List (String × Settings)} {lines : List Char}
    (hreadable : ∀ s ∈ sections, IsBareKey s.1 ∧ Readable s.2)
    (hlines : writeSections? sections = some lines) :
    ReadsTo lines (sectionStatements sections) := by
  induction sections generalizing lines with
  | nil =>
    obtain rfl := Option.some.inj hlines
    exact readsTo_nil
  | cons s sections ih =>
    obtain ⟨name, settings⟩ := s
    simp only [writeSections?, writeSection?, bind, Option.bind_eq_some_iff,
      Option.map_eq_some_iff] at hlines
    obtain ⟨line, ⟨text, htext, rfl⟩, more, hmore, heq⟩ := hlines
    obtain rfl := Option.some.inj heq
    obtain ⟨hname, hsettings⟩ := hreadable (name, settings) List.mem_cons_self
    have hrest := ih (fun s hmem => hreadable s (List.mem_cons_of_mem _ hmem)) hmore
    -- from the end: the other sections, the settings, the header, the blank line
    have hbody := hrest.settings hsettings htext
    have hheader := statement?_header hname ('\n' :: (text ++ more))
    have hblock := (hbody.line hheader (by simp; omega) rfl (by decide)).blank
    simpa [sectionStatements] using hblock

/-! ### What has a text -/

theorem writeSettings?_isSome_iff (settings : Settings) :
    (writeSettings? settings).isSome = true ↔ ∀ setting ∈ settings, setting.2.Fits := by
  induction settings with
  | nil => simp [writeSettings?]
  | cons setting settings ih =>
    obtain ⟨key, s⟩ := setting
    have hline : (writeSetting? key s).isSome = true ↔ s.Fits := by
      rw [writeSetting?, Option.isSome_map, writeScalar?_isSome_iff]
    rw [List.forall_mem_cons, ← ih, ← hline]
    cases hfirst : writeSetting? key s <;> cases hrest : writeSettings? settings <;>
      simp [writeSettings?, hfirst, hrest]

theorem writeSections?_isSome_iff (sections : List (String × Settings)) :
    (writeSections? sections).isSome = true ↔
      ∀ s ∈ sections, ∀ setting ∈ s.2, setting.2.Fits := by
  induction sections with
  | nil => simp [writeSections?]
  | cons s sections ih =>
    obtain ⟨name, settings⟩ := s
    have hlines : (writeSection? name settings).isSome = true ↔
        ∀ setting ∈ settings, setting.2.Fits := by
      rw [writeSection?, Option.isSome_map, writeSettings?_isSome_iff]
    rw [List.forall_mem_cons, ← ih, ← hlines]
    cases hfirst : writeSection? name settings <;> cases hrest : writeSections? sections <;>
      simp [writeSections?, hfirst, hrest]

end EvalRun.Toml
