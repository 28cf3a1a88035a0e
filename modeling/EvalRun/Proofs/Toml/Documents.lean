import EvalRun.Proofs.Toml.Lines

/-! # Proofs.Toml.Documents — a written document reads back as its table

    The statements of a document are assembled into a table one by one. If no
    key comes twice, every one of them adds an entry at the end: an assignment
    adds to the table of the last header, which is the last entry of all, and a
    header adds an empty table. So the table of a document has the entries of
    its layout in their order (`parse_of_write?`).

    A document has a text if and only if all of its numbers do
    (`write?_isSome_iff`).
-/

namespace EvalRun.Toml

/-! ### Tables -/

/-- The entries of settings. -/
def settingEntries (settings : Settings) : Entries :=
  settings.map fun (key, s) => (key, s.value)

/-- The table of a section. -/
def sectionTable (settings : Settings) : Value := .table .header (settingEntries settings)

/-- The entries of sections: a table for each. -/
def sectionEntries (sections : List (String × Settings)) : Entries :=
  sections.map fun (name, settings) => (name, sectionTable settings)

/-- The table of a document. -/
def Layout.entries (layout : Layout) : Entries :=
  settingEntries layout.top ++ sectionEntries layout.sections

/-- The keys of a table. -/
def keys {α : Type} (entries : List (String × α)) : List String := entries.map Prod.fst

theorem keys_settingEntries (settings : Settings) :
    keys (settingEntries settings) = keys settings := by
  simp [keys, settingEntries, Function.comp_def]

theorem lookup_eq_none {α : Type} {entries : List (String × α)} {key : String}
    (h : key ∉ keys entries) : entries.lookup key = none := by
  rw [List.lookup_eq_none_iff]
  intro entry hentry
  have hne : key ≠ entry.1 := by
    rintro rfl
    exact h (List.mem_map_of_mem hentry)
  simpa using hne

theorem lookup_concat {α : Type} {entries : List (String × α)} {key : String}
    (h : key ∉ keys entries) (v : α) : (entries ++ [(key, v)]).lookup key = some v := by
  rw [List.lookup_append, lookup_eq_none h]
  simp

theorem replaceEntry_concat {entries : Entries} {key : String} (h : key ∉ keys entries)
    (old v : Value) : replaceEntry key v (entries ++ [(key, old)]) = entries ++ [(key, v)] := by
  induction entries with
  | nil => simp [replaceEntry]
  | cons entry entries ih =>
    obtain ⟨other, value⟩ := entry
    simp only [keys, List.map_cons, List.mem_cons, not_or] at h
    have hrest := ih h.2
    have hne : other ≠ key := fun heq => h.1 heq.symm
    simp [replaceEntry, hne, hrest]

/-! ### Assembling -/

variable {entries inner : Entries} {key name : String}

theorem assign_eq (h : key ∉ keys entries) (v : Value) :
    assign [] key v .header entries = some (entries ++ [(key, v)]) := by
  simp [assign, changeAt, addKey, lookup_eq_none h]

/-- An assignment before the first header adds an entry to the document. -/
theorem add_assignment_top (h : key ∉ keys entries) (v : Value) :
    Assembly.add ⟨entries, []⟩ (.assignment [] key v) = some ⟨entries ++ [(key, v)], []⟩ := by
  simp [Assembly.add, changeAt, assign_eq h]

/-- An assignment below a header adds an entry to the table of the header. -/
theorem add_assignment_section (hname : name ∉ keys entries) (h : key ∉ keys inner) (v : Value) :
    Assembly.add ⟨entries ++ [(name, .table .header inner)], [name]⟩ (.assignment [] key v)
      = some ⟨entries ++ [(name, .table .header (inner ++ [(key, v)]))], [name]⟩ := by
  simp [Assembly.add, changeAt, lookup_concat hname, mayPass, assign_eq h,
    replaceEntry_concat hname]

/-- A header adds an empty table. -/
theorem add_header (h : name ∉ keys entries) (current : List String) :
    Assembly.add ⟨entries, current⟩ (.header [] name)
      = some ⟨entries ++ [(name, .table .header [])], [name]⟩ := by
  simp [Assembly.add, changeAt, openTable, lookup_eq_none h]

theorem foldlM_assignments_top {settings : Settings}
    (h : (keys entries ++ keys settings).Nodup) :
    (assignments settings).foldlM Assembly.add ⟨entries, []⟩
      = some ⟨entries ++ settingEntries settings, []⟩ := by
  -- the entries before it grow with each assignment; no key is among them yet
  induction settings generalizing entries with
  | nil => simp [assignments, settingEntries]
  | cons setting settings ih =>
    obtain ⟨key, s⟩ := setting
    have hkey : key ∉ keys entries := by
      intro hmem
      exact (List.nodup_append.1 h).2.2 key hmem key List.mem_cons_self rfl
    have hnodup : (keys (entries ++ [(key, s.value)]) ++ keys settings).Nodup := by
      simpa [keys] using h
    have hrest := ih hnodup
    simp only [assignments, List.map_cons, List.foldlM_cons, add_assignment_top hkey]
    simpa [assignments, settingEntries] using hrest

theorem foldlM_assignments_section {settings : Settings} (hname : name ∉ keys entries)
    (h : (keys inner ++ keys settings).Nodup) :
    (assignments settings).foldlM Assembly.add ⟨entries ++ [(name, .table .header inner)], [name]⟩
      = some ⟨entries ++ [(name, .table .header (inner ++ settingEntries settings))], [name]⟩ := by
  -- here the table of the section grows, and stays the last entry
  induction settings generalizing inner with
  | nil => simp [assignments, settingEntries]
  | cons setting settings ih =>
    obtain ⟨key, s⟩ := setting
    have hkey : key ∉ keys inner := by
      intro hmem
      exact (List.nodup_append.1 h).2.2 key hmem key List.mem_cons_self rfl
    have hnodup : (keys (inner ++ [(key, s.value)]) ++ keys settings).Nodup := by
      simpa [keys] using h
    have hrest := ih hnodup
    simp only [assignments, List.map_cons, List.foldlM_cons, add_assignment_section hname hkey]
    simpa [assignments, settingEntries] using hrest

/-- Sections add their tables one after the other. -/
theorem foldlM_sections {sections : List (String × Settings)} (current : List String)
    (h : (keys entries ++ keys sections).Nodup)
    (hsections : ∀ s ∈ sections, (keys s.2).Nodup) :
    ∃ last, (sectionStatements sections).foldlM Assembly.add ⟨entries, current⟩
      = some ⟨entries ++ sectionEntries sections, last⟩ := by
  induction sections generalizing entries current with
  | nil => exact ⟨current, by simp [sectionStatements, sectionEntries]⟩
  | cons s sections ih =>
    obtain ⟨name, settings⟩ := s
    have hname : name ∉ keys entries := by
      intro hmem
      exact (List.nodup_append.1 h).2.2 name hmem name List.mem_cons_self rfl
    -- once its assignments are in, a section is one more entry before the others
    have hnodup : (keys (entries ++ [(name, sectionTable settings)]) ++ keys sections).Nodup := by
      simpa [keys] using h
    obtain ⟨last, hrest⟩ := ih [name] hnodup fun s hs => hsections s (List.mem_cons_of_mem _ hs)
    have hempty : (keys ([] : Entries) ++ keys settings).Nodup :=
      hsections (name, settings) List.mem_cons_self
    have hsettings := foldlM_assignments_section hname hempty
    refine ⟨last, ?_⟩
    simp only [sectionStatements, List.flatMap_cons, List.cons_append, List.foldlM_cons,
      List.foldlM_append, add_header hname]
    simp only [sectionStatements] at hrest
    simpa [hsettings, sectionEntries, sectionTable] using hrest

/-! ### Documents -/

/-- A layout that its text gives back: keys are bare, none comes twice, and
    floats are finite. -/
structure Layout.WellFormed (layout : Layout) : Prop where
  top : Readable layout.top
  sections : ∀ s ∈ layout.sections, IsBareKey s.1 ∧ Readable s.2
  /-- The sections are keys of the document too. -/
  nodup_keys : (keys layout.top ++ keys layout.sections).Nodup
  nodup_section : ∀ s ∈ layout.sections, (keys s.2).Nodup

theorem assemble_eq {layout : Layout} (h : layout.WellFormed) :
    assemble (assignments layout.top ++ sectionStatements layout.sections)
      = some layout.entries := by
  have htop : (assignments layout.top).foldlM Assembly.add ⟨[], []⟩
      = some ⟨settingEntries layout.top, []⟩ := by
    have hempty : (keys ([] : Entries) ++ keys layout.top).Nodup :=
      (List.nodup_append.1 h.nodup_keys).1
    exact foldlM_assignments_top hempty
  have hkeys : (keys (settingEntries layout.top) ++ keys layout.sections).Nodup := by
    rw [keys_settingEntries]
    exact h.nodup_keys
  obtain ⟨last, hsections⟩ := foldlM_sections [] hkeys h.nodup_section
  unfold assemble
  rw [List.foldlM_append, htop]
  simp [hsections, Layout.entries]

theorem write?_eq_some_iff {layout : Layout} {text : String} :
    write? layout = some text ↔ ∃ top sections, writeSettings? layout.top = some top ∧
      writeSections? layout.sections = some sections ∧ String.ofList (top ++ sections) = text := by
  simp only [write?, bind, Option.bind_eq_some_iff, Option.some.injEq]
  constructor
  · rintro ⟨top, htop, sections, hsections, heq⟩
    exact ⟨top, sections, htop, hsections, heq⟩
  · rintro ⟨top, sections, htop, hsections, heq⟩
    exact ⟨top, htop, sections, hsections, heq⟩

/-- The lines of settings start with a key. -/
theorem head?_writeSettings? {settings : Settings} {lines : List Char}
    (hreadable : Readable settings) (h : writeSettings? settings = some lines) :
    ∀ c ∈ lines.head?, c ≠ '\uFEFF' := by
  cases settings with
  | nil =>
    obtain rfl := Option.some.inj h
    simp
  | cons setting others =>
    have hkey := (hreadable setting List.mem_cons_self).1
    simp only [writeSettings?, bind, Option.bind_eq_some_iff] at h
    obtain ⟨line, hline, more, -, heq⟩ := h
    obtain ⟨text, -, rfl⟩ := writeSetting?_eq_some_iff.1 hline
    obtain rfl := Option.some.inj heq
    rw [List.append_assoc]
    intro c hc
    obtain ⟨rest, hcons⟩ := List.head?_eq_some_iff.1 hc
    rintro rfl
    exact hkey.append_ne (by decide) _ rest hcons

/-- The lines of sections start with a blank line. -/
theorem head?_writeSections? {sections : List (String × Settings)} {lines : List Char}
    (h : writeSections? sections = some lines) : ∀ c ∈ lines.head?, c ≠ '\uFEFF' := by
  cases sections with
  | nil =>
    obtain rfl := Option.some.inj h
    simp
  | cons s others =>
    simp only [writeSections?, writeSection?, bind, Option.bind_eq_some_iff,
      Option.map_eq_some_iff] at h
    obtain ⟨lines, ⟨text, -, rfl⟩, more, -, heq⟩ := h
    obtain rfl := Option.some.inj heq
    intro d hd
    obtain rfl : '\n' = d := by simpa using hd
    decide

/-- No text starts with a byte order mark. -/
theorem skipMark_append {layout : Layout} {top sections : List Char} (h : layout.WellFormed)
    (htop : writeSettings? layout.top = some top)
    (hsections : writeSections? layout.sections = some sections) :
    skipMark (top ++ sections) = top ++ sections := by
  have hhead : ∀ c ∈ (top ++ sections).head?, c ≠ '\uFEFF' := by
    cases htext : top with
    | nil => exact head?_writeSections? hsections
    | cons c rest =>
      have hkey := head?_writeSettings? h.top htop
      rw [htext] at hkey
      exact hkey
  unfold skipMark
  split
  · rename_i heq
    rw [heq] at hhead
    exact absurd rfl (hhead _ rfl)
  · rfl

/-- A document that has a text is read back from it. -/
theorem parse_of_write? {layout : Layout} {text : String} (h : layout.WellFormed)
    (hwrite : write? layout = some text) : parse text = some layout.entries := by
  obtain ⟨top, sections, htop, hsections, rfl⟩ := write?_eq_some_iff.1 hwrite
  have hread : ReadsTo (top ++ sections)
      (assignments layout.top ++ sectionStatements layout.sections) :=
    (readsTo_sections h.sections hsections).settings h.top htop
  have hstatements := hread ((top ++ sections).length + 1) (by omega)
  unfold parse
  rw [String.toList_ofList, skipMark_append h htop hsections]
  simp only [hstatements, Option.bind_some, assemble_eq h]

/-- A document has a text if and only if all its numbers do. -/
theorem write?_isSome_iff (layout : Layout) :
    (write? layout).isSome = true ↔
      (∀ setting ∈ layout.top, setting.2.Fits) ∧
        ∀ s ∈ layout.sections, ∀ setting ∈ s.2, setting.2.Fits := by
  rw [← writeSettings?_isSome_iff, ← writeSections?_isSome_iff]
  unfold write?
  cases writeSettings? layout.top <;> cases writeSections? layout.sections <;> simp

end EvalRun.Toml
