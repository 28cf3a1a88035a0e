import EvalRun.Pipeline.Run
import EvalRun.Proofs.Binary64.Decimal

/-! # Proofs.RunFile.Table — a run file as a table

    A reader of a run file cuts it at its line feeds and cuts every line at its
    tabs. What it gets are the rows that were written, provided that no cell
    holds a tab or a line feed. Of the six cells of a row, those of the number
    one, the rank and the score never do. The topic and the document may, and
    then the file is no table of that many rows: each separator in a cell makes
    one line or one cell too many (`isTable_lines_iff`).
-/

namespace EvalRun

namespace RunFile

/-! ### Rows -/

/-- The rows of rankings with their topics, in the order in which they are
    written. -/
def rows (lists : List RankedList) : List (String × RankedEntry) :=
  lists.flatMap fun list => list.entries.map fun e => (list.topic, e)

theorem mem_rows {lists : List RankedList} {row : String × RankedEntry} :
    row ∈ rows lists ↔ ∃ list ∈ lists, row.2 ∈ list.entries ∧ row.1 = list.topic := by
  obtain ⟨topic, e⟩ := row
  unfold rows
  rw [List.mem_flatMap]
  apply exists_congr
  intro list
  simp [eq_comm]

/-- The lines of a run are those of its rows. -/
theorem text_eq_lines (tag : String) (lists : List RankedList) :
    text tag lists = lines ((rows lists).map fun row => row.2.row row.1 tag) := by
  induction lists with
  | nil => rfl
  | cons list rest ih =>
    rw [text_cons, ih]
    simp [rows, block, lines, Function.comp_def]

/-- A summary counts the rows. -/
theorem rowsWritten_eq_length (lists : List (Option RankedList)) :
    (lists.foldl Pipeline.RunSummary.record .zero).rowsWritten =
      (rows (lists.filterMap id)).length := by
  have hfrom (s : Pipeline.RunSummary) :
      (lists.foldl Pipeline.RunSummary.record s).rowsWritten =
        s.rowsWritten + (rows (lists.filterMap id)).length := by
    induction lists generalizing s with
    | nil => rfl
    | cons list? rest ih =>
      rw [List.foldl_cons, ih]
      cases list? with
      | none => rfl
      | some list => simp [Pipeline.RunSummary.record, rows, RankedList.size, Nat.add_assoc]
  rw [hfrom]
  exact Nat.zero_add _

/-! ### Cells -/

/-- The cells of a text: its lines, cut at their tabs. What follows the last
    line feed is no line. -/
def cells (text : String) : List (List String) :=
  (text.toList.splitOn '\n').dropLast.map fun line => (line.splitOn '\t').map String.ofList

/-- A text is a table of six columns with the given number of rows. -/
structure IsTable (count : Nat) (text : String) : Prop where
  /-- A line feed ends the last line. -/
  ended : (text.toList.splitOn '\n').getLast? = some []
  /-- Every row has a line. -/
  length_eq : (cells text).length = count
  /-- Every line has six cells. -/
  width_eq : ∀ row ∈ cells text, row.length = 6

/-- A text can stand in one cell. -/
def IsCell (s : String) : Prop := '\t' ∉ s.toList ∧ '\n' ∉ s.toList

instance (s : String) : Decidable (IsCell s) := inferInstanceAs (Decidable (_ ∧ _))

end RunFile

/-! ### Numbers in cells -/

namespace RunFile

/-- Digits, and what stands beside them in a number, are no separators. -/
theorem isCell_of_forall_mem {s : String}
    (h : ∀ c ∈ s.toList, c.isDigit = true ∨ c ∈ ['.', '-', 'i', 'n', 'f', 'N', 'a']) :
    IsCell s := by
  constructor
  · intro htab
    rcases h _ htab with h | h
    · exact absurd h (by decide)
    · exact absurd h (by decide)
  · intro hfeed
    rcases h _ hfeed with h | h
    · exact absurd h (by decide)
    · exact absurd h (by decide)

theorem isCell_toString (n : Nat) : IsCell (toString n) := by
  apply isCell_of_forall_mem
  intro c hc
  have hdigits : (toString n).toList = digitsOf n := Nat.toList_repr
  rw [hdigits] at hc
  exact .inl (isDigit_of_mem_digitsOf hc)

theorem isCell_render_scoreLayout (x : Binary64) : IsCell (scoreLayout.render x) := by
  apply isCell_of_forall_mem
  intro c hc
  unfold NumberLayout.render at hc
  split at hc
  · have hnan : c = 'N' ∨ c = 'a' := by simpa [scoreLayout, or_comm, or_assoc] using hc
    exact .inr (by rcases hnan with rfl | rfl <;> decide)
  · have hsign : ∀ c ∈ (if x.negative then ['-'] else []), c = '-' := by
      split <;> simp
    simp only at hc
    split at hc
    · rw [String.toList_ofList] at hc
      rcases List.mem_append.1 hc with hc | hc
      · rw [hsign c hc]
        exact .inr (by decide)
      · have hinf : c = 'i' ∨ c = 'n' ∨ c = 'f' := by simpa using hc
        exact .inr (by rcases hinf with rfl | rfl | rfl <;> decide)
    · rw [String.toList_ofList] at hc
      rcases List.mem_append.1 hc with hc | hc
      · rw [hsign c hc]
        exact .inr (by decide)
      · rcases Decimal.isDigit_or_eq_of_mem_positional hc with hdigit | rfl
        · exact .inl hdigit
        · exact .inr (by decide)

theorem isCell_scoreColumn (e : RankedEntry) : IsCell e.scoreColumn := by
  unfold RankedEntry.scoreColumn
  split
  · decide
  · exact isCell_render_scoreLayout e.score

/-! ### Lines -/

/-- Cutting makes one piece more than there are separators. -/
theorem length_splitOn (separator : Char) (cs : List Char) :
    (cs.splitOn separator).length = cs.count separator + 1 := by
  induction cs with
  | nil => simp
  | cons c rest ih =>
    rw [List.splitOn_cons_eq_if_modifyHead]
    by_cases h : c = separator
    · simp [h, ih]
    · simp [h, ih]

theorem toList_lines_cons (row : String) (rest : List String) :
    (lines (row :: rest)).toList = row.toList ++ '\n' :: (lines rest).toList := by
  simp [lines]

/-- There are as many line feeds as rows, and more if some row holds one. -/
theorem count_lines (rows : List String) :
    rows.length ≤ (lines rows).toList.count '\n' ∧
      ((lines rows).toList.count '\n' = rows.length →
        ∀ row ∈ rows, row.toList.count '\n' = 0) := by
  induction rows with
  | nil => exact ⟨Nat.le_refl _, by simp⟩
  | cons row rest ih =>
    obtain ⟨hle, hnone⟩ := ih
    rw [toList_lines_cons, List.count_append, List.count_cons_self, List.length_cons]
    refine ⟨by omega, ?_⟩
    intro hcount r hr
    rcases List.mem_cons.1 hr with rfl | hr
    · omega
    · exact hnone (by omega) r hr

/-- A line feed ends the last line. -/
theorem getLast?_splitOn_lines (rows : List String) :
    ((lines rows).toList.splitOn '\n').getLast? = some [] := by
  induction rows with
  | nil => rfl
  | cons row rest ih =>
    rw [toList_lines_cons, List.splitOn_append_cons_self, List.getLast?_append, ih]
    rfl

/-- Rows without line feeds are the lines of their text. -/
theorem splitOn_lines {rows : List String} (h : ∀ row ∈ rows, '\n' ∉ row.toList) :
    (lines rows).toList.splitOn '\n' = rows.map String.toList ++ [[]] := by
  induction rows with
  | nil => rfl
  | cons row rest ih =>
    rw [toList_lines_cons, List.splitOn_append_cons_self_of_not_mem (h row List.mem_cons_self),
      ih fun r hr => h r (List.mem_cons_of_mem row hr)]
    rfl

/-! ### Rows as lines -/

theorem toList_row (topic tag : String) (e : RankedEntry) :
    (e.row topic tag).toList = ['\t'].intercalate ((e.columns topic tag).map String.toList) := by
  simp [RankedEntry.row]

/-- The separators of a row are the five between its cells and those in its
    topic and its document. -/
theorem count_row (topic : String) {tag : String} (htag : IsCell tag) (e : RankedEntry) :
    (e.row topic tag).toList.count '\t' =
        5 + topic.toList.count '\t' + e.doc.toList.count '\t' ∧
      (e.row topic tag).toList.count '\n' =
        topic.toList.count '\n' + e.doc.toList.count '\n' := by
  have hrank := isCell_toString e.rank
  have hscore := isCell_scoreColumn e
  rw [toList_row]
  simp only [RankedEntry.columns, List.map_cons, List.map_nil, List.intercalate_cons_cons,
    List.intercalate_singleton, List.count_append]
  rw [List.count_eq_zero.2 htag.1, List.count_eq_zero.2 htag.2, List.count_eq_zero.2 hrank.1,
    List.count_eq_zero.2 hrank.2, List.count_eq_zero.2 hscore.1, List.count_eq_zero.2 hscore.2]
  have htabs : ['\t'].count '\t' = 1 ∧ ['\t'].count '\n' = 0 := by decide
  have hone : "1".toList.count '\t' = 0 ∧ "1".toList.count '\n' = 0 := by decide
  omega

variable {tag : String} {table : List (String × RankedEntry)}

/-- Rows without line feeds are cut at their tabs one by one. -/
theorem cells_lines_of_not_mem
    (h : ∀ row ∈ table, '\n' ∉ (row.2.row row.1 tag).toList) :
    cells (lines (table.map fun row => row.2.row row.1 tag)) =
      table.map fun row => ((row.2.row row.1 tag).toList.splitOn '\t').map String.ofList := by
  have hlines : ∀ line ∈ table.map (fun row => row.2.row row.1 tag), '\n' ∉ line.toList := by
    intro line hline
    obtain ⟨row, hrow, rfl⟩ := List.mem_map.1 hline
    exact h row hrow
  rw [cells, splitOn_lines hlines, List.dropLast_concat, List.map_map, List.map_map]
  rfl

/-- Rows whose topics and documents can stand in cells are read back cell by
    cell. -/
theorem cells_lines (htag : IsCell tag)
    (h : ∀ row ∈ table, IsCell row.1 ∧ IsCell row.2.doc) :
    cells (lines (table.map fun row => row.2.row row.1 tag)) =
      table.map fun row => row.2.columns row.1 tag := by
  have hcells : ∀ row ∈ table, ∀ cell ∈ row.2.columns row.1 tag, IsCell cell := by
    intro row hrow cell hcell
    simp only [RankedEntry.columns, List.mem_cons, List.not_mem_nil, or_false] at hcell
    rcases hcell with rfl | rfl | rfl | rfl | rfl | rfl
    · exact (h row hrow).1
    · decide
    · exact (h row hrow).2
    · exact isCell_toString row.2.rank
    · exact isCell_scoreColumn row.2
    · exact htag
  have hfeed : ∀ row ∈ table, '\n' ∉ (row.2.row row.1 tag).toList := by
    intro row hrow
    obtain ⟨htopic, hdoc⟩ := h row hrow
    rw [← List.count_eq_zero, (count_row row.1 htag row.2).2, List.count_eq_zero.2 htopic.2,
      List.count_eq_zero.2 hdoc.2]
  rw [cells_lines_of_not_mem hfeed]
  apply List.map_congr_left
  intro row hrow
  have htabs : ∀ cell ∈ (row.2.columns row.1 tag).map String.toList, '\t' ∉ cell := by
    intro cell hcell
    obtain ⟨s, hs, rfl⟩ := List.mem_map.1 hcell
    exact (hcells row hrow s hs).1
  rw [toList_row, List.splitOn_intercalate _ htabs (by simp [RankedEntry.columns]), List.map_map]
  simp [Function.comp_def]

/-- The rows of a file are a table of that many rows if and only if all their
    topics and documents can stand in cells. -/
theorem isTable_lines_iff (htag : IsCell tag) :
    IsTable table.length (lines (table.map fun row => row.2.row row.1 tag)) ↔
      ∀ row ∈ table, IsCell row.1 ∧ IsCell row.2.doc := by
  constructor
  · intro htable
    -- as many lines as rows: no row holds a line feed
    have hlength := htable.length_eq
    rw [cells, List.length_map, List.length_dropLast, length_splitOn] at hlength
    obtain ⟨-, hnone⟩ := count_lines (table.map fun row => row.2.row row.1 tag)
    have hfeed : ∀ row ∈ table, (row.2.row row.1 tag).toList.count '\n' = 0 := by
      intro row hrow
      apply hnone
      · rw [List.length_map]
        omega
      · exact List.mem_map_of_mem hrow
    intro row hrow
    -- so every row is a line of six cells: it holds five tabs
    have hwidth := htable.width_eq (((row.2.row row.1 tag).toList.splitOn '\t').map String.ofList)
    rw [cells_lines_of_not_mem fun r hr => List.count_eq_zero.1 (hfeed r hr), List.length_map,
      length_splitOn] at hwidth
    have htabs := hwidth (List.mem_map_of_mem hrow)
    obtain ⟨htab_count, hfeed_count⟩ := count_row row.1 htag row.2
    have hrow_feed := hfeed row hrow
    refine ⟨⟨?_, ?_⟩, ⟨?_, ?_⟩⟩ <;> apply List.count_eq_zero.1 <;> omega
  · intro h
    have hcells := cells_lines htag h
    exact {
      ended := getLast?_splitOn_lines _
      length_eq := by rw [hcells, List.length_map]
      width_eq := by
        rw [hcells]
        intro cells hmem
        obtain ⟨row, -, rfl⟩ := List.mem_map.1 hmem
        rfl }

end RunFile

end EvalRun
