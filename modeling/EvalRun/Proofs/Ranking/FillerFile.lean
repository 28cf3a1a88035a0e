import EvalRun.Filler
import EvalRun.Proofs.Text.Trimming

/-! # Proofs.Ranking.FillerFile — which ids a filler file lists

    A filler file is written line by line. A line holds one id with white space
    around it, or white space only, and ends with a line feed, which may have a
    carriage return before it; the last line may end with the text. `Lists` is
    that layout as a relation between a text and the ids in it.

    * **Line by line.** A line feed cuts a text in two that are read apart
      (`ids_ofText_append`). So a file is read line by line, and what a line
      says does not depend on how it ends (`lineId?_chopReturn`).
    * **Layout.** Every text is laid out in one way only, and it is read as the
      ids of its layout (`ofText_lists`).
-/

namespace EvalRun

namespace FillerPool

/-! ### Layout -/

/-- The text can stand in a filler file as an id: there is something of it, all
    on one line, and no white space at its ends. -/
structure IsId (id : String) : Prop where
  ne_empty : id ≠ ""
  feed_not_mem : '\n' ∉ id.toList
  head_not_blank : ∀ c ∈ id.toList.head?, Text.isBlank c = false
  last_not_blank : ∀ c ∈ id.toList.getLast?, Text.isBlank c = false

/-- White space within a line. -/
structure IsGap (cs : List Char) : Prop where
  blank : ∀ c ∈ cs, Text.isBlank c = true
  feed_not_mem : '\n' ∉ cs

/-- What a line says, its line end aside: an id with white space around it, or
    nothing. -/
inductive Says : List Char → Option String → Prop where
  | blank {line : List Char} (hline : IsGap line) : Says line none
  | id {before after : List Char} {id : String} (hbefore : IsGap before) (hid : IsId id)
    (hafter : IsGap after) : Says (before ++ id.toList ++ after) (some id)

/-- The text lists the ids: each of its lines says one of them or nothing, in
    their order. -/
inductive Lists : List Char → List String → Prop where
  /-- The last line, without a line end. After a line end it is an empty line. -/
  | last {line : List Char} {id? : Option String} (hline : Says line id?) : Lists line id?.toList
  /-- A line before others. -/
  | line {line ending rest : List Char} {id? : Option String} {ids : List String}
    (hline : Says line id?) (hending : ending = ['\n'] ∨ ending = ['\r', '\n'])
    (hrest : Lists rest ids) : Lists (line ++ ending ++ rest) (id?.toList ++ ids)

/-! ### One line -/

/-- The id that is read from a line. -/
def lineId? (line : List Char) : Option String :=
  if Text.trimBlank line = [] then none else some (String.ofList (Text.trimBlank line))

theorem ids_ofText (text : String) :
    (ofText text).ids = (Text.lines text.toList).filterMap lineId? := by
  unfold ofText
  generalize Text.lines text.toList = lines
  induction lines with
  | nil => rfl
  | cons line rest ih =>
    by_cases hblank : Text.trimBlank line = []
    · simpa [lineId?, hblank] using ih
    · simpa [lineId?, hblank] using ih

/-- White space behind a line is not read. -/
theorem lineId?_append_blank (line : List Char) {c : Char} (hc : Text.isBlank c = true) :
    lineId? (line ++ [c]) = lineId? line := by
  -- what is trimmed of the line is trimmed of the longer one
  obtain ⟨⟨before, after, hline, hbefore, hafter⟩, hhead, hlast⟩ :=
    Text.isTrimmed_iff.2 (rfl : Text.trimBlank line = Text.trimBlank line)
  have htrimmed : Text.IsTrimmed (line ++ [c]) (Text.trimBlank line) := by
    refine ⟨⟨before, after ++ [c], ?_, hbefore, ?_⟩, hhead, hlast⟩
    · rw [← List.append_assoc, ← hline]
    · intro d hd
      rcases List.mem_append.1 hd with hd | hd
      · exact hafter d hd
      · rwa [List.mem_singleton.1 hd]
  unfold lineId?
  rw [← Text.isTrimmed_iff.1 htrimmed]

/-- So it does not matter whether a carriage return is taken for a part of the
    line end. -/
theorem lineId?_chopReturn (line : List Char) :
    lineId? (Text.chopReturn line) = lineId? line := by
  unfold Text.chopReturn
  split
  · rename_i hreturn
    obtain ⟨front, rfl⟩ := List.getLast?_eq_some_iff.1 hreturn
    rw [List.dropLast_concat, lineId?_append_blank front rfl]
  · rfl

/-- The id that is read from a line is what the line says. -/
theorem lineId?_eq_of_says {line : List Char} {id? : Option String} (h : Says line id?) :
    lineId? line = id? := by
  cases h with
  | blank hline =>
    unfold lineId?
    rw [if_pos ((Text.trimBlank_eq_nil_iff line).2 hline.blank)]
  | @id before after id hbefore hid hafter =>
    have htrimmed : Text.IsTrimmed (before ++ id.toList ++ after) id.toList :=
      ⟨⟨before, after, rfl, hbefore.blank, hafter.blank⟩, hid.head_not_blank, hid.last_not_blank⟩
    have hne : id.toList ≠ [] := by
      intro hnil
      exact hid.ne_empty (String.toList_eq_nil_iff.1 hnil)
    unfold lineId?
    rw [← Text.isTrimmed_iff.1 htrimmed, if_neg hne, String.ofList_toList]

/-- Every line says what is read from it. -/
theorem says_lineId? {line : List Char} (hfeed : '\n' ∉ line) : Says line (lineId? line) := by
  obtain ⟨⟨before, after, hline, hbefore, hafter⟩, hhead, hlast⟩ :=
    Text.isTrimmed_iff.2 (rfl : Text.trimBlank line = Text.trimBlank line)
  unfold lineId?
  by_cases hblank : Text.trimBlank line = []
  · rw [if_pos hblank]
    exact .blank ⟨(Text.trimBlank_eq_nil_iff line).1 hblank, hfeed⟩
  · rw [if_neg hblank]
    generalize Text.trimBlank line = inner at *
    subst hline
    simp only [List.mem_append, not_or] at hfeed
    obtain ⟨⟨hfeedBefore, hfeedInner⟩, hfeedAfter⟩ := hfeed
    have hid : IsId (String.ofList inner) := by
      refine ⟨?_, ?_, ?_, ?_⟩
      · intro hempty
        exact hblank (String.ofList_eq_empty_iff.1 hempty)
      · rwa [String.toList_ofList]
      · rwa [String.toList_ofList]
      · rwa [String.toList_ofList]
    have hread := Says.id ⟨hbefore, hfeedBefore⟩ hid ⟨hafter, hfeedAfter⟩
    rwa [String.toList_ofList] at hread

/-! ### Line by line -/

/-- Behind a line feed reading begins anew, whatever of its line was read
    before the text. -/
theorem filterMap_linesFrom_append (current cs rest : List Char) :
    (Text.linesFrom current (cs ++ '\n' :: rest)).filterMap lineId? =
      (Text.linesFrom current cs).filterMap lineId? ++ (Text.lines rest).filterMap lineId? := by
  induction cs generalizing current with
  | nil =>
    have hline : (Text.linesFrom current []).filterMap lineId? =
        (lineId? current.reverse).toList := by
      unfold Text.linesFrom
      cases current with
      | nil => rfl
      | cons c before => cases h : lineId? (c :: before).reverse <;> simp_all
    rw [List.nil_append, hline, Text.linesFrom, if_pos rfl, List.filterMap_cons,
      lineId?_chopReturn]
    cases lineId? current.reverse <;> rfl
  | cons c cs ih =>
    rw [List.cons_append, Text.linesFrom, Text.linesFrom]
    by_cases hfeed : c = '\n'
    · rw [if_pos hfeed, if_pos hfeed, List.filterMap_cons, List.filterMap_cons, ih]
      cases lineId? (Text.chopReturn current.reverse) <;> rfl
    · rw [if_neg hfeed, if_neg hfeed, ih]

/-- A text without a line feed is one line. -/
theorem filterMap_lines_of_not_mem {line : List Char} (hfeed : '\n' ∉ line) :
    (Text.lines line).filterMap lineId? = (lineId? line).toList := by
  have hfrom (current : List Char) : Text.linesFrom current line =
      if line.reverse ++ current = [] then [] else [current.reverse ++ line] := by
    induction line generalizing current with
    | nil => cases current <;> simp [Text.linesFrom]
    | cons c rest ih =>
      have hc : c ≠ '\n' := by
        rintro rfl
        exact hfeed List.mem_cons_self
      rw [Text.linesFrom, if_neg hc, ih fun hmem => hfeed (List.mem_cons_of_mem _ hmem)]
      simp
  unfold Text.lines
  rw [hfrom []]
  cases line with
  | nil => rfl
  | cons c rest => cases h : lineId? (c :: rest) <;> simp_all

/-- A first line is read apart from the lines behind it. -/
theorem filterMap_lines_cons {line : List Char} (hfeed : '\n' ∉ line) (rest : List Char) :
    (Text.lines (line ++ '\n' :: rest)).filterMap lineId? =
      (lineId? line).toList ++ (Text.lines rest).filterMap lineId? := by
  have hread := filterMap_linesFrom_append [] line rest
  rwa [← Text.lines, ← Text.lines, filterMap_lines_of_not_mem hfeed] at hread

/-- Two texts with a line feed between them list their ids one after another. -/
theorem ids_ofText_append (x y : String) :
    (ofText (x ++ "\n" ++ y)).ids = (ofText x).ids ++ (ofText y).ids := by
  have htext : (x ++ "\n" ++ y).toList = x.toList ++ '\n' :: y.toList := by
    simp
  rw [ids_ofText, ids_ofText, ids_ofText, htext]
  exact filterMap_linesFrom_append [] x.toList y.toList

/-! ### Files -/

/-- What a text lists is read from it. -/
theorem filterMap_lines_of_lists {text : List Char} {ids : List String} (h : Lists text ids) :
    (Text.lines text).filterMap lineId? = ids := by
  have hfeed {line : List Char} {id? : Option String} (hline : Says line id?) : '\n' ∉ line := by
    cases hline with
    | blank hline => exact hline.feed_not_mem
    | id hbefore hid hafter =>
      simp only [List.mem_append, not_or]
      exact ⟨⟨hbefore.feed_not_mem, hid.feed_not_mem⟩, hafter.feed_not_mem⟩
  induction h with
  | last hline => rw [filterMap_lines_of_not_mem (hfeed hline), lineId?_eq_of_says hline]
  | @line line ending rest id? ids hline hending _ ih =>
    have hread := lineId?_eq_of_says hline
    rcases hending with rfl | rfl
    · rw [List.append_assoc, List.singleton_append, filterMap_lines_cons (hfeed hline), hread, ih]
    · -- the carriage return is read as white space at the end of the line
      have hreturn : '\n' ∉ line ++ ['\r'] := by
        simpa using hfeed hline
      have hsplit : line ++ ['\r', '\n'] ++ rest = (line ++ ['\r']) ++ '\n' :: rest := by simp
      rw [hsplit, filterMap_lines_cons hreturn, lineId?_append_blank line rfl, hread, ih]

/-- Every text lists what is read from it. -/
theorem lists_filterMap_lines (text : List Char) :
    Lists text ((Text.lines text).filterMap lineId?) := by
  -- by the length of the text, which is shorter behind its first line
  induction hlength : text.length using Nat.strongRecOn generalizing text with
  | ind n ih =>
    by_cases hfeed : '\n' ∈ text
    · obtain ⟨line, rest, rfl, hline⟩ := List.eq_append_cons_of_mem hfeed
      have hshorter : rest.length < n := by
        rw [← hlength, List.length_append, List.length_cons]
        omega
      have hlists := Lists.line (says_lineId? hline) (.inl rfl) (ih rest.length hshorter rest rfl)
      rw [List.append_assoc, List.singleton_append] at hlists
      rwa [filterMap_lines_cons hline]
    · rw [filterMap_lines_of_not_mem hfeed]
      exact .last (says_lineId? hfeed)

theorem isId_of_lists {text : List Char} {ids : List String} (h : Lists text ids) :
    ∀ id ∈ ids, IsId id := by
  have hline {line : List Char} {id? : Option String} (hread : Says line id?) :
      ∀ id ∈ id?.toList, IsId id := by
    intro id hmem
    cases hread with
    | blank _ => cases hmem
    | id _ hid _ =>
      obtain rfl := List.mem_singleton.1 hmem
      exact hid
  induction h with
  | last hread => exact hline hread
  | line hread _ _ ih =>
    intro id hmem
    rcases List.mem_append.1 hmem with hmem | hmem
    · exact hline hread id hmem
    · exact ih id hmem

/-- A filler file is read as the list of ids that is laid out in it.

    * What is read are ids: not empty, on one line, without white space at their
      ends.
    * A text in which ids are laid out, with white space around them, blank
      lines, either line end and a last line with or without one, is read as
      these ids in their order, repetitions included. Other ids are not read.
    * Two texts with a line feed between them are read one after another. -/
theorem ofText_lists :
    (∀ text : String, ∀ id ∈ (ofText text).ids, IsId id) ∧
    (∀ (text : String) (ids : List String), Lists text.toList ids ↔ (ofText text).ids = ids) ∧
    (∀ x y : String, (ofText (x ++ "\n" ++ y)).ids = (ofText x).ids ++ (ofText y).ids) := by
  have hlists (text : String) : Lists text.toList (ofText text).ids := by
    rw [ids_ofText]
    exact lists_filterMap_lines text.toList
  refine ⟨?_, ?_, ids_ofText_append⟩
  · intro text
    exact isId_of_lists (hlists text)
  · intro text ids
    constructor
    · intro h
      rw [ids_ofText]
      exact filterMap_lines_of_lists h
    · intro h
      rw [← h]
      exact hlists text

/-- A carriage return within a line is no line end, and an id may hold one. -/
example : (ofText "\u2003a\rb \r\n\r\n\x0B\r\r\na\rb").ids = ["a\rb", "a\rb"] := by
  decide

end FillerPool

end EvalRun
