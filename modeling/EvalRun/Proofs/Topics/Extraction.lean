import EvalRun.Proofs.Text.Trimming
import EvalRun.Proofs.Xml.Outline
import EvalRun.Proofs.Xml.Selection
import EvalRun.Topics.RawTopic
import Mathlib.Data.List.Forall2

/-! # Proofs.Topics.Extraction — which topics a document has

    What an element says as a topic is stated on the tree alone: where its id
    stands, which elements are its keywords, and which its formulas (`Says`).
    A document has topics if and only if its root is named `topics` and every
    element inside has an id; then it has one topic for each, in their order.
    If an element has none, the fault carries the place of the first of them
    among the elements of the root (`parse_isExtracted`).

    Elements are told apart by local names, the only names that a tree has.
    So documents that differ in qualifiers and attributes alone have the same
    ids, keywords and numbers of formulas, or the same fault
    (`parse_eq_of_sameOutline`).
-/

namespace EvalRun.Topics

open Xml (Node)

/-! ### What an element says -/

/-- The element has a `num` child, and the text of the first one has a
    character that is no white space. -/
def HasId (topic : Node) : Prop :=
  ∃ num, topic.children.find? (Node.isNamed "num") = some num ∧
    ∃ c ∈ num.leadingText, Text.isBlank c = false

/-- The elements that a topic keeps its formulas in: those of the given name
    at the end of the path. -/
def formulaElements (leaf : String) (topic : Node) : List Node :=
  topic.reached ["query", "formula", "math", "semantics", leaf]

/-- The formulas of a topic: its `apply` elements, or the `cerror` elements in
    their place if there is no `apply` at all. -/
def formulasIn (topic : Node) : List Node :=
  if formulaElements "apply" topic = [] then formulaElements "cerror" topic
  else formulaElements "apply" topic

/-- The raw topic is what an element of a document says. -/
structure Says (document : List Char) (topic : Node) (raw : RawTopic) : Prop where
  /-- The id is the text of the first `num` child, trimmed, and not empty. -/
  id : ∃ num, topic.children.find? (Node.isNamed "num") = some num ∧
    Text.IsTrimmed num.leadingText raw.id.toList ∧ raw.id ≠ ""
  /-- The keywords are the texts of the keywords of all queries. -/
  keywords : raw.keywords = (topic.reached ["query", "keyword"]).map fun keyword =>
    String.ofList keyword.leadingText
  /-- The formulas are as their elements are written. -/
  formulas : raw.formulas = (formulasIn topic).map fun formula =>
    String.ofList (formula.source document)

/-- The element at the place, counted from one, has no id, and all before it
    have one. -/
def FirstWithoutId (topics : List Node) (position : Nat) : Prop :=
  ∃ before topic after, topics = before ++ topic :: after ∧ position = before.length + 1 ∧
    (∀ earlier ∈ before, HasId earlier) ∧ ¬ HasId topic

/-- What reading the topics of a document has to give. -/
structure IsExtracted (document : List Char) (root : Node)
    (result : Except DocumentFault (List RawTopic)) : Prop where
  /-- There are topics if and only if the root is named so and every element
      inside has an id. -/
  isOk_iff : (∃ raws, result = .ok raws) ↔
    root.isNamed "topics" = true ∧ ∀ topic ∈ root.elements, HasId topic
  /-- The topics are what the elements say, one for each, in their order. -/
  ok_iff : ∀ raws, result = .ok raws ↔
    root.isNamed "topics" = true ∧ List.Forall₂ (Says document) root.elements raws
  /-- A root of another name is the fault, and the fault says which. -/
  wrongRoot_iff : ∀ name, result = .error (.wrongRoot name) ↔
    root.isNamed "topics" = false ∧ name = String.ofList root.localName
  /-- Otherwise the first element without an id is, and the fault says where it
      stands. -/
  missingId_iff : ∀ position, result = .error (.missingId position) ↔
    root.isNamed "topics" = true ∧ FirstWithoutId root.elements position
  /-- There is no other fault. -/
  well_formed : result ≠ .error .notWellFormed

/-! ### One element -/

variable {document : List Char} {topic : Node}

/-- An id is read from the first `num` child if its text is more than white
    space. -/
theorem idOf?_eq_some_iff {id : List Char} :
    idOf? topic = some id ↔ ∃ num, topic.children.find? (Node.isNamed "num") = some num ∧
      id = Text.trimBlank num.leadingText ∧ id ≠ [] := by
  unfold idOf? Node.childrenNamed
  rw [List.head?_filter]
  cases topic.children.find? (Node.isNamed "num") with
  | none => simp
  | some num =>
    simp only [Option.bind_eq_bind, Option.bind_some, Option.some.injEq, exists_eq_left',
      Option.ite_none_left_eq_some, List.isEmpty_iff]
    constructor
    · rintro ⟨hne, rfl⟩
      exact ⟨rfl, hne⟩
    · rintro ⟨rfl, hne⟩
      exact ⟨hne, rfl⟩

theorem idOf?_isSome_iff : (∃ id, idOf? topic = some id) ↔ HasId topic := by
  simp only [idOf?_eq_some_iff, HasId]
  constructor
  · rintro ⟨id, num, hnum, rfl, hne⟩
    rw [ne_eq, Text.trimBlank_eq_nil_iff] at hne
    exact ⟨num, hnum, by simpa using hne⟩
  · rintro ⟨num, hnum, hblank⟩
    refine ⟨_, num, hnum, rfl, ?_⟩
    rw [ne_eq, Text.trimBlank_eq_nil_iff]
    simpa using hblank

theorem keywordsOf_eq (topic : Node) :
    keywordsOf topic = (topic.reached ["query", "keyword"]).map fun keyword =>
      String.ofList keyword.leadingText := by
  unfold keywordsOf
  rw [Node.select_eq_reached _ (List.cons_ne_nil _ _)]

theorem formulasOf_eq (document : List Char) (topic : Node) :
    formulasOf document topic = (formulasIn topic).map fun formula =>
      String.ofList (formula.source document) := by
  unfold formulasOf markupOf formulasIn formulaElements
  rw [Node.select_eq_reached _ (List.cons_ne_nil _ _),
    Node.select_eq_reached _ (List.cons_ne_nil _ _)]
  cases topic.reached ["query", "formula", "math", "semantics", "apply"] with
  | nil => simp
  | cons formula rest => simp

/-- An element is read as what it says. -/
theorem ofElement?_eq_some_iff {raw : RawTopic} :
    ofElement? document topic = some raw ↔ Says document topic raw := by
  unfold ofElement?
  simp only [Option.bind_eq_bind, Option.bind_eq_some_iff, Option.some.injEq, keywordsOf_eq,
    formulasOf_eq, idOf?_eq_some_iff]
  constructor
  · rintro ⟨id, ⟨num, hnum, hid, hne⟩, rfl⟩
    refine ⟨⟨num, hnum, ?_, ?_⟩, rfl, rfl⟩
    · rw [Text.isTrimmed_iff]
      simpa using hid
    · simpa [← String.toList_inj] using hne
  · rintro ⟨⟨num, hnum, htrimmed, hne⟩, hkeywords, hformulas⟩
    refine ⟨raw.id.toList, ⟨num, hnum, Text.isTrimmed_iff.1 htrimmed, by simpa using hne⟩, ?_⟩
    cases raw with
    | mk id keywords formulas =>
      simp only [RawTopic.mk.injEq, String.ofList_toList, true_and]
      exact ⟨hkeywords.symm, hformulas.symm⟩

/-- An element without an id is not read, and any other is. -/
theorem ofElement?_eq_none_iff : ofElement? document topic = none ↔ ¬ HasId topic := by
  rw [← idOf?_isSome_iff]
  unfold ofElement?
  cases idOf? topic with
  | none => simp
  | some id => simp

/-! ### All elements -/

/-- Elements are read if and only if each is, as what they say. -/
theorem ofElements_eq_ok_iff (position : Nat) {topics : List Node} {raws : List RawTopic} :
    ofElements document position topics = .ok raws ↔
      List.Forall₂ (Says document) topics raws := by
  induction topics generalizing position raws with
  | nil =>
    rw [List.forall₂_nil_left_iff, ofElements, Except.ok.injEq, eq_comm]
  | cons topic rest ih =>
    rw [ofElements, List.forall₂_cons_left_iff]
    cases hraw : ofElement? document topic with
    | none =>
      have htold (raw : RawTopic) : ¬ Says document topic raw := by
        rw [← ofElement?_eq_some_iff, hraw]
        exact nofun
      simp [htold]
    | some raw =>
      have htold {raw' : RawTopic} : Says document topic raw' ↔ raw = raw' := by
        rw [← ofElement?_eq_some_iff, hraw, Option.some.injEq]
      cases hrest : ofElements document (position + 1) rest with
      | error fault =>
        have hnone (raws : List RawTopic) : ¬ List.Forall₂ (Says document) rest raws := by
          rw [← ih (position + 1), hrest]
          exact nofun
        simp [Except.map, hnone]
      | ok found =>
        have hfound {raws : List RawTopic} :
            List.Forall₂ (Says document) rest raws ↔ found = raws := by
          rw [← ih (position + 1), hrest, Except.ok.injEq]
        simp [Except.map, htold, hfound, eq_comm]

/-- The first element without an id is the fault, and the fault carries its
    place. -/
theorem ofElements_eq_error_iff (position : Nat) {topics : List Node} {fault : DocumentFault} :
    ofElements document (position + 1) topics = .error fault ↔
      ∃ place, FirstWithoutId topics place ∧ fault = .missingId (position + place) := by
  induction topics generalizing position with
  | nil => simp [ofElements, FirstWithoutId]
  | cons topic rest ih =>
    rw [ofElements]
    cases hraw : ofElement? document topic with
    | none =>
      have hid : ¬ HasId topic := ofElement?_eq_none_iff.1 hraw
      simp only [Except.error.injEq]
      constructor
      · rintro rfl
        exact ⟨1, ⟨[], topic, rest, rfl, rfl, nofun, hid⟩, rfl⟩
      · rintro ⟨place, ⟨before, other, after, hsplit, rfl, hbefore, -⟩, rfl⟩
        cases before with
        | nil => rfl
        | cons first before =>
          obtain ⟨rfl, -⟩ := List.cons.inj hsplit
          exact absurd (hbefore topic List.mem_cons_self) hid
    | some raw =>
      have hid : HasId topic := by
        by_contra h
        rw [ofElement?_eq_none_iff.2 h] at hraw
        cases hraw
      have hmap : ((ofElements document (position + 1 + 1) rest).map (raw :: ·) = .error fault) ↔
          ofElements document (position + 1 + 1) rest = .error fault := by
        cases ofElements document (position + 1 + 1) rest <;> simp [Except.map]
      simp only [hmap, ih]
      constructor
      · rintro ⟨place, ⟨before, other, after, rfl, rfl, hbefore, hother⟩, rfl⟩
        refine ⟨_, ⟨topic :: before, other, after, rfl, rfl, ?_, hother⟩, ?_⟩
        · simpa [hid] using hbefore
        · simp only [List.length_cons]
          congr 1
          omega
      · rintro ⟨place, ⟨before, other, after, hsplit, rfl, hbefore, hother⟩, rfl⟩
        cases before with
        | nil =>
          obtain ⟨rfl, -⟩ := List.cons.inj hsplit
          exact absurd hid hother
        | cons first before =>
          obtain ⟨rfl, rfl⟩ := List.cons.inj hsplit
          refine ⟨_, ⟨before, other, after, rfl, rfl,
            fun e he => hbefore e (List.mem_cons_of_mem _ he), hother⟩, ?_⟩
          simp only [List.length_cons]
          congr 1
          omega

/-- Every element says something if and only if each has an id. -/
theorem exists_forall₂_says_iff {topics : List Node} :
    (∃ raws, List.Forall₂ (Says document) topics raws) ↔ ∀ topic ∈ topics, HasId topic := by
  have hid (topic : Node) : HasId topic ↔ ∃ raw, Says document topic raw := by
    simp only [← ofElement?_eq_some_iff, ← Option.isSome_iff_exists, ← Option.ne_none_iff_isSome]
    rw [ne_eq, ofElement?_eq_none_iff, not_not]
  induction topics with
  | nil => simp
  | cons topic rest ih =>
    rw [List.forall_mem_cons, hid]
    constructor
    · rintro ⟨raws, hraws⟩
      obtain ⟨raw, rest', hraw, hrest, rfl⟩ := List.forall₂_cons_left_iff.1 hraws
      exact ⟨⟨raw, hraw⟩, ih.1 ⟨rest', hrest⟩⟩
    · rintro ⟨⟨raw, hraw⟩, hrest⟩
      obtain ⟨raws, hraws⟩ := ih.2 hrest
      exact ⟨raw :: raws, .cons hraw hraws⟩

/-! ### A document -/

/-- A tree gives the topics that its elements say. -/
theorem ofDocument_isExtracted (document : Xml.Document) :
    IsExtracted document.chars document.root (ofDocument document) := by
  unfold ofDocument
  by_cases hroot : document.root.isNamed "topics" = true
  · rw [if_pos hroot]
    refine ⟨?_, ?_, ?_, ?_, ?_⟩
    · simp only [ofElements_eq_ok_iff, exists_forall₂_says_iff, hroot, true_and]
    · intro raws
      simp only [ofElements_eq_ok_iff, hroot, true_and]
    · intro name
      simp [ofElements_eq_error_iff 0, hroot]
    · intro position
      simp [ofElements_eq_error_iff 0, hroot]
    · simp [ofElements_eq_error_iff 0]
  · rw [if_neg hroot]
    refine ⟨?_, ?_, ?_, ?_, ?_⟩ <;> simp [hroot, eq_comm]

/-- The characters of a document are those of the text it was read from. -/
theorem chars_of_parse {text : String} {document : Xml.Document}
    (hdocument : Xml.Document.parse text = some document) : document.chars = text.toList := by
  obtain ⟨-, -, -, root, -, -, -, -, rfl⟩ := Xml.Document.parse_eq_some_iff.1 hdocument
  rfl

/-- The raw topics of a text are what the elements of its document say. -/
theorem exists_says_of_parse {text : String} {raws : List RawTopic} (h : parse text = .ok raws) :
    ∃ document, Xml.Document.parse text = some document ∧
      List.Forall₂ (Says text.toList) document.root.elements raws := by
  unfold parse at h
  cases hdocument : Xml.Document.parse text with
  | none =>
    rw [hdocument] at h
    cases h
  | some document =>
    rw [hdocument] at h
    rw [← chars_of_parse hdocument]
    exact ⟨document, rfl, (((ofDocument_isExtracted document).ok_iff raws).1 h).2⟩

/-! ### Qualifiers -/

/-- What a raw topic says, with the number of its formulas in place of their
    markup. -/
def RawTopic.gist (raw : RawTopic) : String × List String × Nat :=
  (raw.id, raw.keywords, raw.formulas.length)

theorem idOf?_outline (topic : Node) : idOf? topic.outline = idOf? topic := by
  unfold idOf?
  rw [Node.childrenNamed_outline, List.head?_map]
  cases (topic.childrenNamed "num").head? with
  | none => rfl
  | some num => simp

theorem keywordsOf_outline (topic : Node) : keywordsOf topic.outline = keywordsOf topic := by
  unfold keywordsOf
  rw [Node.select_outline, List.map_map]
  simp [Function.comp_def]

theorem length_formulasOf_outline (document document' : List Char) (topic : Node) :
    (formulasOf document' topic.outline).length = (formulasOf document topic).length := by
  unfold formulasOf markupOf
  rw [Node.select_outline, Node.select_outline]
  cases topic.select ["query", "formula", "math", "semantics", "apply"] with
  | nil => simp
  | cons formula rest => simp

/-- What an element says can be told from its outline, but for markup. -/
theorem gist_ofElement?_outline (document document' : List Char) (topic : Node) :
    (ofElement? document' topic.outline).map RawTopic.gist =
      (ofElement? document topic).map RawTopic.gist := by
  unfold ofElement?
  rw [idOf?_outline, keywordsOf_outline]
  cases idOf? topic with
  | none => rfl
  | some id => simp [RawTopic.gist, length_formulasOf_outline document document' topic]

theorem gist_ofElements_outline (document document' : List Char) (position : Nat)
    (topics : List Node) :
    (ofElements document' position (topics.map Node.outline)).map (·.map RawTopic.gist) =
      (ofElements document position topics).map (·.map RawTopic.gist) := by
  induction topics generalizing position with
  | nil => rfl
  | cons topic rest ih =>
    have hgist := gist_ofElement?_outline document document' topic
    rw [List.map_cons, ofElements, ofElements]
    cases hraw : ofElement? document topic with
    | none =>
      rw [hraw, Option.map_none, Option.map_eq_none_iff] at hgist
      simp only [hgist]
    | some raw =>
      rw [hraw, Option.map_some, Option.map_eq_some_iff] at hgist
      obtain ⟨raw', hraw', hgist⟩ := hgist
      have hcons (first : RawTopic) (found : Except DocumentFault (List RawTopic)) :
          (found.map (first :: ·)).map (·.map RawTopic.gist) =
            (found.map (·.map RawTopic.gist)).map (first.gist :: ·) := by
        cases found <;> rfl
      simp only [hraw', hcons, ih, hgist]

/-- The topics of a document can be told from its outline, but for markup. -/
theorem gist_ofDocument_outline (document document' : Xml.Document)
    (h : document'.root = document.root.outline) :
    (ofDocument document').map (·.map RawTopic.gist) =
      (ofDocument document).map (·.map RawTopic.gist) := by
  unfold ofDocument
  rw [h, Node.isNamed_outline, Node.localName_outline, Node.elements_outline]
  split
  · exact gist_ofElements_outline document.chars document'.chars 1 document.root.elements
  · rfl

/-- Documents of the same outline have the same topics, but for markup, or the
    same fault. -/
theorem parse_eq_of_sameOutline {text text' : String} (h : Xml.SameOutline text text')
    {document document' : Xml.Document} (hdocument : Xml.Document.parse text = some document)
    (hdocument' : Xml.Document.parse text' = some document') :
    (parse text).map (·.map RawTopic.gist) = (parse text').map (·.map RawTopic.gist) := by
  have houtline := h.root_outline_eq hdocument hdocument'
  unfold parse
  rw [hdocument, hdocument']
  calc (ofDocument document).map (·.map RawTopic.gist)
      = (ofDocument ⟨[], document.root.outline⟩).map (·.map RawTopic.gist) :=
        (gist_ofDocument_outline document ⟨[], document.root.outline⟩ rfl).symm
    _ = (ofDocument document').map (·.map RawTopic.gist) :=
        gist_ofDocument_outline document' ⟨[], document.root.outline⟩ houtline

/-! ### A text -/

/-- A text that is not well-formed is refused, and of a document the topics are
    what the elements of its root say, written as the text has them.

    Qualifiers and attributes have no part in this: another document with the
    same outline has the same ids, keywords and numbers of formulas, or the
    same fault. -/
theorem parse_isExtracted (text : String) :
    (match Xml.Document.parse text with
    | none => parse text = .error .notWellFormed
    | some document => IsExtracted text.toList document.root (parse text)) ∧
    ∀ text' document document', Xml.SameOutline text text' →
      Xml.Document.parse text = some document → Xml.Document.parse text' = some document' →
      (parse text).map (·.map RawTopic.gist) = (parse text').map (·.map RawTopic.gist) := by
  constructor
  · unfold parse
    cases hdocument : Xml.Document.parse text with
    | none => rfl
    | some document =>
      rw [← chars_of_parse hdocument]
      exact ofDocument_isExtracted document
  · intro text' document document' hsame hdocument hdocument'
    exact parse_eq_of_sameOutline hsame hdocument hdocument'

/-- The same topic with qualifiers and without: the name of its root, its id and
    its formula are found all the same. -/
theorem parse_isExtracted_qualified :
    let text : String := "<a:topics xmlns:a='u'><t><num>T</num><query><formula><a:math>" ++
      "<semantics><a:apply/></semantics></a:math></formula></query></t></a:topics>"
    let text' : String := "<topics><t><b:num xmlns:b='v'>T</b:num><query><formula><math>" ++
      "<semantics><apply/></semantics></math></formula></query></t></topics>"
    Xml.SameOutline text text' ∧ parse text = .ok [⟨"T", [], ["<a:apply/>"]⟩] ∧
      (parse text').map (·.map RawTopic.gist) = .ok [("T", [], 1)] := by
  intro text text'
  have hparse : parse text = .ok [⟨"T", [], ["<a:apply/>"]⟩] := by decide +kernel
  have hparse' : parse text' = .ok [⟨"T", [], ["<apply/>"]⟩] := by decide +kernel
  obtain ⟨document, hdocument, -⟩ := exists_says_of_parse hparse
  obtain ⟨document', hdocument', -⟩ := exists_says_of_parse hparse'
  have hsame : Xml.SameOutline text text' :=
    Xml.sameOutline_of_map_eq hdocument (by decide +kernel)
  refine ⟨hsame, hparse, ?_⟩
  rw [← (parse_isExtracted text).2 text' document document' hsame hdocument hdocument', hparse]
  rfl

end EvalRun.Topics
