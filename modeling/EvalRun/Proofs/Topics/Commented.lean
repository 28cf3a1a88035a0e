import EvalRun.Proofs.Xml.Commented
import EvalRun.Proofs.Xml.Selection
import EvalRun.Topics.RawTopic
import Mathlib.Data.List.Infix

/-! # Proofs.Topics.Commented — comments in the text of a topic

    The texts that a topic is read from, those of its `num` elements and of the
    keywords of its queries, end at the first comment. So a comment put into one of
    them cuts it off. It changes nothing else (`parse_commented`): the formulas, all
    other texts and all other topics stay what they are, and the answer is that for
    the texts as they are now. A `num` may lose its id this way
    (`parse_num_commented`).

    An *account* holds the texts and formulas of one topic, and the topics or the
    fault follow from the accounts alone (`parse_eq_ofAccounts`).
-/

namespace EvalRun.Topics

open Xml

/-! ### What a topic is read from -/

/-- What the topic of an element is read from. -/
structure Account where
  /-- The texts of its `num` elements. -/
  nums : List (List Char)
  /-- The texts of the keywords of its queries. -/
  keywords : List (List Char)
  /-- The markup of its formulas. -/
  formulas : List String
  deriving DecidableEq

/-- The elements of a topic that have a text. -/
inductive Field where
  | num
  | keyword
  deriving DecidableEq

namespace Account

/-- What the element of a document is read from. -/
def ofElement (document : List Char) (topic : Node) : Account where
  nums := (topic.childrenNamed "num").map Node.leadingText
  keywords := (topic.select ["query", "keyword"]).map Node.leadingText
  formulas := formulasOf document topic

/-- The topic: nothing if it has no id. -/
def raw? (a : Account) : Option RawTopic := do
  let num ← a.nums.head?
  let id := Text.trimBlank num
  if id.isEmpty then none
  else some ⟨String.ofList id, a.keywords.map String.ofList, a.formulas⟩

/-- The texts of all elements of a kind. -/
def texts (a : Account) : Field → List (List Char)
  | .num => a.nums
  | .keyword => a.keywords

/-- One text replaced. -/
def setText (a : Account) (field : Field) (i : Nat) (text : List Char) : Account :=
  match field with
  | .num => { a with nums := a.nums.set i text }
  | .keyword => { a with keywords := a.keywords.set i text }

end Account

/-- The topics of accounts, the first of which has the given position. -/
def ofAccounts (position : Nat) : List Account → Except DocumentFault (List RawTopic)
  | [] => .ok []
  | a :: rest =>
    match a.raw? with
    | none => .error (.missingId position)
    | some raw => (ofAccounts (position + 1) rest).map (raw :: ·)

/-- What the topics of a document are read from. -/
def accountsOf (document : Document) : List Account :=
  document.root.elements.map (Account.ofElement document.chars)

/-- The topic of an element is that of its account. -/
theorem ofElement?_eq_raw? (document : List Char) (topic : Node) :
    ofElement? document topic = (Account.ofElement document topic).raw? := by
  unfold ofElement? idOf? Account.raw? Account.ofElement
  rw [List.head?_map]
  cases (topic.childrenNamed "num").head? with
  | none => rfl
  | some num =>
    simp only [Option.bind_eq_bind, Option.bind_some, Option.map_some]
    split
    · rfl
    · simp [keywordsOf]

/-- The topics of elements are those of their accounts. -/
theorem ofElements_eq_ofAccounts (document : List Char) (position : Nat) (topics : List Node) :
    ofElements document position topics =
      ofAccounts position (topics.map (Account.ofElement document)) := by
  induction topics generalizing position with
  | nil => rfl
  | cons topic rest ih =>
    rw [ofElements, List.map_cons, ofAccounts, ofElement?_eq_raw?]
    cases (Account.ofElement document topic).raw? with
    | none => rfl
    | some raw => simp only [ih]

/-- The topics of a document are those of its accounts. -/
theorem parse_eq_ofAccounts {chars : List Char} {document : Document}
    (h : Document.parse (.ofList chars) = some document)
    (hroot : document.root.isNamed "topics" = true) :
    parse (.ofList chars) = ofAccounts 1 (accountsOf document) := by
  unfold parse accountsOf
  rw [h]
  simp only [ofDocument, hroot, if_true, ofElements_eq_ofAccounts]

/-! ### A place in the text of a topic -/

/-- A place inside an element of a topic that has a text. -/
structure Place where
  /-- The number of topics before. -/
  topic : Nat
  /-- The kind of the element. -/
  field : Field
  /-- The number of elements of this kind in the topic before. -/
  index : Nat
  /-- The text of the element up to the place. -/
  shown : List Char
  deriving DecidableEq

/-- The place at which a topic document breaks off: nothing if it is not directly
    inside a `num` or a keyword of a query. -/
def place? (left : List Char) : Option Place := do
  let b ← readSoFar? left
  match b.top, b.opened with
  | [], [e, topic, root] =>
    if root.soFar.isNamed "topics" && e.soFar.isNamed "num" then
      some ⟨root.soFar.elements.length, .num, (topic.soFar.childrenNamed "num").length,
        e.soFar.leadingText⟩
    else none
  | [], [e, query, topic, root] =>
    if root.soFar.isNamed "topics" && query.soFar.isNamed "query" && e.soFar.isNamed "keyword" then
      some ⟨root.soFar.elements.length, .keyword,
        (topic.soFar.select ["query", "keyword"]).length +
          (query.soFar.childrenNamed "keyword").length, e.soFar.leadingText⟩
    else none
  | _, _ => none

/-! ### One topic -/

/-- The formulas of a topic are written away from a place. -/
def HasClearFormulas (p : Nat) (topic : Node) : Prop :=
  ∀ n ∈ topic.select ["query", "formula"], n.IsClear p

/-- A topic that is clear has clear formulas. -/
theorem hasClearFormulas_of_isClear {p : Nat} {topic : Node} (h : topic.IsClear p) :
    HasClearFormulas p topic := fun _ hn => h.of_mem_select hn

/-- The elements at a longer path are found inside those at its first two names. -/
theorem select_formula (topic : Node) (rest : List String) :
    topic.select ("query" :: "formula" :: rest) =
      (topic.select ["query", "formula"]).flatMap (·.select rest) := by
  rw [Node.select_cons, Node.select_pair, List.flatMap_assoc]
  simp only [Node.select_cons]

/-- Where a comment is put in, topics stay what they are, if their formulas are
    written away from it. -/
theorem ofElement_shifted {left right comment : List Char} {topic : Node}
    (h : HasClearFormulas left.length (topic.shifted left.length comment.length)) :
    Account.ofElement (left ++ (comment ++ right)) (topic.shifted left.length comment.length) =
      Account.ofElement (left ++ right) topic := by
  have hmarkup (leaf : String) : markupOf (left ++ (comment ++ right))
      (topic.shifted left.length comment.length) leaf = markupOf (left ++ right) topic leaf := by
    unfold markupOf
    unfold Node.shifted HasClearFormulas at *
    rw [Node.select_mapPlaces, List.map_map]
    refine List.map_congr_left fun n hn => congrArg String.ofList (Node.source_shifted ?_)
    have hfound := List.mem_map_of_mem (f := Node.mapPlaces (shiftFirst left.length comment.length)
      (shiftLast left.length comment.length)) hn
    rw [← Node.select_mapPlaces, select_formula] at hfound
    obtain ⟨formula, hformula, hfound⟩ := List.mem_flatMap.1 hfound
    exact (h formula hformula).of_mem_select hfound
  unfold Account.ofElement formulasOf Node.shifted at *
  rw [hmarkup, hmarkup, Node.select_mapPlaces, Node.childrenNamed_mapPlaces]
  simp [Function.comp_def]

variable {p : Nat} {name : List Char} {first last first' last' : Nat}
  {before behind inner inner' : List Node}

/-- Children of a kind, where one of them stands among others. -/
theorem filter_reverse_of_pos {P : Node → Bool} {n : Node} (hn : P n = true)
    (behind before : List Node) : (behind ++ n :: before).reverse.filter P =
      before.reverse.filter P ++ n :: behind.reverse.filter P := by
  simp [hn]

/-- An element of another kind does not matter. -/
theorem filter_reverse_of_neg {P : Node → Bool} {n : Node} (hn : P n = false)
    (behind before : List Node) : (behind ++ n :: before).reverse.filter P =
      before.reverse.filter P ++ behind.reverse.filter P := by
  simp [hn]

/-- An element has one name only. -/
theorem isNamed_of_ne {n : Node} {name other : String} (h : n.isNamed name = true)
    (hne : name ≠ other) : n.isNamed other = false := by
  cases n with
  | element own first last children =>
    simp only [Node.isNamed, decide_eq_true_eq, decide_eq_false_iff_not] at h ⊢
    rw [h]
    exact fun heq => hne (String.toList_inj.1 heq)
  | text | comment | instruction => rfl

/-- A list in which one element is replaced. -/
theorem map_set_append {α β : Type} (f : α → β) (before behind : List α) (a a' : α) :
    (before ++ a' :: behind).map f = ((before ++ a :: behind).map f).set before.length (f a') := by
  simp

/-- An element of a list. -/
theorem map_append_getElem? {α β : Type} (f : α → β) (before behind : List α) (a : α) :
    ((before ++ a :: behind).map f)[before.length]? = some (f a) := by
  simp

/-- Topics that differ in a `num` differ in its text. -/
theorem ofElement_num (document : List Char) (behind before : List Node) {num num' : Node}
    (hnum : num.isNamed "num" = true) (hnum' : num'.isNamed "num" = true) :
    let index := (before.reverse.filter (Node.isNamed "num")).length
    let topic (n : Node) := Node.element name first last (behind ++ n :: before).reverse
    (Account.ofElement document (topic num)).nums[index]? = some num.leadingText ∧
      Account.ofElement document (topic num') =
        (Account.ofElement document (topic num)).setText .num index num'.leadingText := by
  intro index topic
  have hnums {n : Node} (hn : n.isNamed "num" = true) : (topic n).childrenNamed "num" =
      before.reverse.filter (Node.isNamed "num") ++
        n :: behind.reverse.filter (Node.isNamed "num") := filter_reverse_of_pos hn behind before
  have hqueries {n : Node} (hn : n.isNamed "num" = true) : (topic n).childrenNamed "query" =
      before.reverse.filter (Node.isNamed "query") ++
        behind.reverse.filter (Node.isNamed "query") :=
    filter_reverse_of_neg (isNamed_of_ne hn (by decide)) behind before
  have hselect (rest : List String) :
      (topic num').select ("query" :: rest) = (topic num).select ("query" :: rest) := by
    rw [Node.select_cons, Node.select_cons, hqueries hnum, hqueries hnum']
  unfold Account.ofElement formulasOf markupOf
  rw [hnums hnum, hnums hnum', hselect, hselect, hselect]
  refine ⟨map_append_getElem? _ _ _ _, ?_⟩
  unfold Account.setText
  simp only [map_set_append Node.leadingText _ _ num num']
  rfl

/-- What the queries of a topic have inside, where one of them stands among others. -/
theorem select_query (name : List Char) (first last : Nat) (inside : String)
    (behind before : List Node) (query : Node) (hquery : query.isNamed "query" = true) :
    (Node.element name first last (behind ++ query :: before).reverse).select ["query", inside] =
      (before.reverse.filter (Node.isNamed "query")).flatMap (Node.childrenNamed inside) ++
        (query.childrenNamed inside ++
          (behind.reverse.filter (Node.isNamed "query")).flatMap (Node.childrenNamed inside)) := by
  have hqueries : (Node.element name first last (behind ++ query :: before).reverse).childrenNamed
      "query" = before.reverse.filter (Node.isNamed "query") ++
        query :: behind.reverse.filter (Node.isNamed "query") :=
    filter_reverse_of_pos hquery behind before
  rw [Node.select_pair, hqueries, List.flatMap_append, List.flatMap_cons]

/-- Topics that differ in a keyword of a query differ in its text. -/
theorem ofElement_keyword (document : List Char) (behind before behind' before' : List Node)
    {keyword keyword' : Node} {first' last' : Nat} (hkeyword : keyword.isNamed "keyword" = true)
    (hkeyword' : keyword'.isNamed "keyword" = true) :
    let index := ((before.reverse.filter (Node.isNamed "query")).flatMap
      (Node.childrenNamed "keyword")).length +
        (before'.reverse.filter (Node.isNamed "keyword")).length
    let query (n : Node) :=
      Node.element "query".toList first' last' (behind' ++ n :: before').reverse
    let topic (n : Node) := Node.element name first last (behind ++ query n :: before).reverse
    (Account.ofElement document (topic keyword)).keywords[index]? = some keyword.leadingText ∧
      Account.ofElement document (topic keyword') =
        (Account.ofElement document (topic keyword)).setText .keyword index
          keyword'.leadingText := by
  intro index query topic
  have hselect (inside : String) (n : Node) :=
    select_query name first last inside behind before (query n) rfl
  have hkeywords {n : Node} (hn : n.isNamed "keyword" = true) :
      (topic n).select ["query", "keyword"] =
        ((before.reverse.filter (Node.isNamed "query")).flatMap (Node.childrenNamed "keyword") ++
          before'.reverse.filter (Node.isNamed "keyword")) ++
        n :: (behind'.reverse.filter (Node.isNamed "keyword") ++
          (behind.reverse.filter (Node.isNamed "query")).flatMap
            (Node.childrenNamed "keyword")) := by
    have hinside : (query n).childrenNamed "keyword" =
        before'.reverse.filter (Node.isNamed "keyword") ++
          n :: behind'.reverse.filter (Node.isNamed "keyword") :=
      filter_reverse_of_pos hn behind' before'
    rw [hselect, hinside, List.append_assoc, List.append_assoc, List.cons_append]
  have hformulas (rest : List String) : (topic keyword').select ("query" :: "formula" :: rest) =
      (topic keyword).select ("query" :: "formula" :: rest) := by
    have hinside {n : Node} (hn : n.isNamed "keyword" = true) :
        (query n).childrenNamed "formula" = before'.reverse.filter (Node.isNamed "formula") ++
          behind'.reverse.filter (Node.isNamed "formula") :=
      filter_reverse_of_neg (isNamed_of_ne hn (by decide)) behind' before'
    rw [select_formula, select_formula (topic keyword), hselect, hselect, hinside hkeyword,
      hinside hkeyword']
  have hnums (n : Node) : (topic n).childrenNamed "num" =
      before.reverse.filter (Node.isNamed "num") ++ behind.reverse.filter (Node.isNamed "num") :=
    filter_reverse_of_neg rfl behind before
  have hindex : index = ((before.reverse.filter (Node.isNamed "query")).flatMap
      (Node.childrenNamed "keyword") ++ before'.reverse.filter (Node.isNamed "keyword")).length :=
    List.length_append.symm
  unfold Account.ofElement formulasOf markupOf
  rw [hnums, hnums, hkeywords hkeyword, hkeywords hkeyword', hformulas, hformulas, hindex]
  refine ⟨map_append_getElem? _ _ _ _, ?_⟩
  unfold Account.setText
  simp only [map_set_append Node.leadingText _ _ keyword keyword']

/-! ### A comment in a topic -/

/-- The second topic is the first with one text replaced, and no formula is written
    across the place. -/
structure ChangesText (p : Nat) (field : Field) (index : Nat) (shown : List Char)
    (topic topic' : Node) : Prop where
  /-- The formulas are written away from the place. -/
  clear : HasClearFormulas p topic
  /-- The text is there, and another one in its place. -/
  changes : ∀ document, ∃ text,
    ((Account.ofElement document topic).texts field)[index]? = some text ∧
      Account.ofElement document topic' =
        (Account.ofElement document topic).setText field index shown

variable {base nodes nodes' topicBefore queryBefore : List Node}

/-- The text of the element in which the comment stands. -/
theorem leadingText_of_differs (h : Differs p base [] nodes nodes') (name name' : List Char)
    (first last first' last' : Nat) :
    (Node.element name first last nodes'.reverse).leadingText =
      (Node.element name' first' last' base.reverse).leadingText := by
  cases h with
  | here _ behind => exact Node.leadingText_comment name name' first last first' last' base behind

/-- Topics that differ inside a `num`. -/
theorem changesText_num
    (h : Differs p base [⟨"num".toList, topicBefore⟩] nodes nodes') :
    ChangesText p .num (topicBefore.reverse.filter (Node.isNamed "num")).length
      (Node.element [] 0 0 base.reverse).leadingText
      (.element name first last nodes.reverse) (.element name first last nodes'.reverse) := by
  obtain ⟨first', last', behind, inner, inner', hinner, hclear, rfl, rfl⟩ := h.exists_inside
  rw [← leadingText_of_differs hinner "num".toList [] first' last' 0 0]
  refine ⟨fun n hn => ?_, fun document => ⟨_, ofElement_num document behind topicBefore rfl rfl⟩⟩
  -- the formulas are inside queries, all of which are clear
  rw [Node.select_cons] at hn
  obtain ⟨query, hquery, hn⟩ := List.mem_flatMap.1 hn
  have hqueries : query ∈ (topicBefore.reverse.filter (Node.isNamed "query") ++
      behind.reverse.filter (Node.isNamed "query")) := by
    rw [← filter_reverse_of_neg (n := .element "num".toList first' last' inner.reverse) rfl]
    exact hquery
  refine (hclear query ?_).of_mem_select hn
  rcases List.mem_append.1 hqueries with hbefore | hbehind
  · exact List.mem_append_right _ (List.mem_reverse.1 (List.mem_filter.1 hbefore).1)
  · exact List.mem_append_left _ (List.mem_reverse.1 (List.mem_filter.1 hbehind).1)

/-- Topics that differ inside a keyword of a query. -/
theorem changesText_keyword (h : Differs p base
      [⟨"query".toList, topicBefore⟩, ⟨"keyword".toList, queryBefore⟩] nodes nodes') :
    ChangesText p .keyword (((topicBefore.reverse.filter (Node.isNamed "query")).flatMap
        (Node.childrenNamed "keyword")).length +
          (queryBefore.reverse.filter (Node.isNamed "keyword")).length)
      (Node.element [] 0 0 base.reverse).leadingText
      (.element name first last nodes.reverse) (.element name first last nodes'.reverse) := by
  obtain ⟨first₁, last₁, behind, query, query', hquery, hclear, rfl, rfl⟩ := h.exists_inside
  obtain ⟨first₂, last₂, behind', inner, inner', hinner, hclear', rfl, rfl⟩ := hquery.exists_inside
  rw [← leadingText_of_differs hinner "keyword".toList [] first₂ last₂ 0 0]
  refine ⟨fun n hn => ?_, fun document =>
    ⟨_, ofElement_keyword document behind topicBefore behind' queryBefore rfl rfl⟩⟩
  -- a formula is in another query, or beside the keyword in the same one
  have hother {m : Node} (hm : m ∈ behind ++ topicBefore) (hn : n ∈ m.childrenNamed "formula") :
      n.IsClear p := (hclear m hm).of_mem_children (List.mem_filter.1 hn).1
  rw [select_query name first last "formula" behind topicBefore _ rfl] at hn
  rcases List.mem_append.1 hn with hbefore | hn
  · obtain ⟨m, hm, hn⟩ := List.mem_flatMap.1 hbefore
    exact hother (List.mem_append_right _ (List.mem_reverse.1 (List.mem_filter.1 hm).1)) hn
  rcases List.mem_append.1 hn with hsame | hbehind
  · have hbeside : n ∈ queryBefore.reverse.filter (Node.isNamed "formula") ++
        behind'.reverse.filter (Node.isNamed "formula") := by
      rw [← filter_reverse_of_neg (n := .element "keyword".toList first₂ last₂ inner.reverse) rfl]
      exact hsame
    apply hclear'
    rcases List.mem_append.1 hbeside with hbefore | hbehind
    · exact List.mem_append_right _ (List.mem_reverse.1 (List.mem_filter.1 hbefore).1)
    · exact List.mem_append_left _ (List.mem_reverse.1 (List.mem_filter.1 hbehind).1)
  · obtain ⟨m, hm, hn⟩ := List.mem_flatMap.1 hbehind
    exact hother (List.mem_append_left _ (List.mem_reverse.1 (List.mem_filter.1 hm).1)) hn

/-- What the topics of a document with a comment are read from: all as before, but
    for the topic in which the comment stands. -/
theorem accountsOf_commented {left right comment topicName : List Char} {root root' : Node}
    {spots : List Spot} {rootBefore : List Node} {field : Field} {index : Nat} {shown : List Char}
    (h : Differs left.length base (⟨"topics".toList, []⟩ :: ⟨topicName, rootBefore⟩ :: spots)
      [root.shifted left.length comment.length] [root'])
    (hchanges : ∀ {first last : Nat} {nodes nodes' : List Node},
      Differs left.length base spots nodes nodes' →
        ChangesText left.length field index shown (.element topicName first last nodes.reverse)
          (.element topicName first last nodes'.reverse)) :
    root.isNamed "topics" = true ∧ root'.isNamed "topics" = true ∧
      ∃ account text, (accountsOf ⟨left ++ right, root⟩)[(rootBefore.reverse.filter
          Node.isElement).length]? = some account ∧ (account.texts field)[index]? = some text ∧
        accountsOf ⟨left ++ (comment ++ right), root'⟩ =
          (accountsOf ⟨left ++ right, root⟩).set (rootBefore.reverse.filter Node.isElement).length
            (account.setText field index shown) := by
  obtain ⟨first, last, outside, topics, topics', htopics, -, hroot, hroot'⟩ := h.exists_inside
  obtain rfl : outside = [] := by
    cases outside with
    | nil => rfl
    | cons n rest => simp at hroot
  obtain ⟨first₁, last₁, behind, nodes, nodes', hnodes, hclear, rfl, rfl⟩ := htopics.exists_inside
  have hshifted := (List.cons.inj hroot).1
  obtain rfl := (List.cons.inj hroot').1
  have hchanged : ChangesText left.length field index shown
      (.element topicName first₁ last₁ nodes.reverse)
      (.element topicName first₁ last₁ nodes'.reverse) := hchanges hnodes
  obtain ⟨text, htext, hreplaced⟩ := hchanged.changes (left ++ (comment ++ right))
  have helements {n : Node} (hn : n.isElement = true) :
      (Node.element "topics".toList first last (behind ++ n :: rootBefore).reverse).elements =
        rootBefore.reverse.filter Node.isElement ++ n :: behind.reverse.filter Node.isElement :=
    filter_reverse_of_pos hn behind rootBefore
  have hsame : root.elements.map (Node.shifted left.length comment.length) =
      rootBefore.reverse.filter Node.isElement ++
        .element topicName first₁ last₁ nodes.reverse :: behind.reverse.filter Node.isElement := by
    rw [← helements rfl, ← hshifted]
    exact (Node.elements_mapPlaces root).symm
  have haccounts : accountsOf ⟨left ++ right, root⟩ =
      (rootBefore.reverse.filter Node.isElement ++ .element topicName first₁ last₁ nodes.reverse ::
        behind.reverse.filter Node.isElement).map
          (Account.ofElement (left ++ (comment ++ right))) := by
    rw [← hsame, List.map_map]
    refine List.map_congr_left fun topic htopic => (ofElement_shifted ?_).symm
    have hmem := List.mem_map_of_mem (f := Node.shifted left.length comment.length) htopic
    rw [hsame, List.mem_append, List.mem_cons] at hmem
    rcases hmem with hbefore | heq | hbehind
    · exact hasClearFormulas_of_isClear (hclear _ (List.mem_append_right _
        (List.mem_reverse.1 (List.mem_filter.1 hbefore).1)))
    · rw [heq]
      exact hchanged.clear
    · exact hasClearFormulas_of_isClear (hclear _ (List.mem_append_left _
        (List.mem_reverse.1 (List.mem_filter.1 hbehind).1)))
  have hnamed : root.isNamed "topics" = true := by
    rw [← Node.isNamed_mapPlaces (f := shiftFirst left.length comment.length)
      (g := shiftLast left.length comment.length)]
    exact congrArg (Node.isNamed "topics") hshifted
  refine ⟨hnamed, rfl, Account.ofElement (left ++ (comment ++ right))
    (.element topicName first₁ last₁ nodes.reverse), text, ?_, htext, ?_⟩
  · rw [haccounts]
    exact map_append_getElem? _ _ _ _
  · rw [haccounts, ← hreplaced, accountsOf, helements rfl]
    exact map_set_append _ _ _ _ _

/-- What is known at a place in a topic: the elements around it, and that whatever
    differs there differs in the text of the element. -/
theorem place?_eq_some {left : List Char} {place : Place} (h : place? left = some place) :
    ∃ b topicName rootBefore spots, readSoFar? left = some b ∧ b.opened ≠ [] ∧ b.top = [] ∧
      b.spots.reverse = ⟨"topics".toList, []⟩ :: ⟨topicName, rootBefore⟩ :: spots ∧
      place.topic = (rootBefore.reverse.filter Node.isElement).length ∧
      ∀ {p first last : Nat} {nodes nodes' : List Node},
        Differs p (b.levels.headD []) spots nodes nodes' →
          ChangesText p place.field place.index place.shown
            (.element topicName first last nodes.reverse)
            (.element topicName first last nodes'.reverse) := by
  obtain ⟨b, hb, h⟩ := Option.bind_eq_some_iff.1 h
  have hname {e : OpenElement} {name : String} (h : e.soFar.isNamed name = true) :
      e.name.localPart = name.toList := of_decide_eq_true h
  split at h
  · rename_i e topic root htop hopened
    split at h
    · rename_i hnames
      obtain rfl := Option.some.inj h
      rw [Bool.and_eq_true] at hnames
      refine ⟨b, topic.name.localPart, root.children, [⟨"num".toList, topic.children⟩], hb,
        hopened ▸ List.cons_ne_nil _ _, htop, ?_, rfl, fun hdiffers => ?_⟩
      · rw [← hname hnames.1, ← hname hnames.2]
        simp [Builder.spots, Builder.tags, Builder.levels, hopened, htop, OpenElement.tag]
      · have hbase : b.levels.headD [] = e.children := by simp [Builder.levels, hopened]
        rw [hbase] at hdiffers
        exact changesText_num hdiffers
    · cases h
  · rename_i e query topic root htop hopened
    split at h
    · rename_i hnames
      obtain rfl := Option.some.inj h
      rw [Bool.and_eq_true, Bool.and_eq_true] at hnames
      refine ⟨b, topic.name.localPart, root.children,
        [⟨"query".toList, topic.children⟩, ⟨"keyword".toList, query.children⟩], hb,
        hopened ▸ List.cons_ne_nil _ _, htop, ?_, rfl, fun hdiffers => ?_⟩
      · rw [← hname hnames.1.1, ← hname hnames.1.2, ← hname hnames.2]
        simp [Builder.spots, Builder.tags, Builder.levels, hopened, htop, OpenElement.tag]
      · have hbase : b.levels.headD [] = e.children := by simp [Builder.levels, hopened]
        rw [hbase] at hdiffers
        rw [Node.select_pair]
        exact changesText_keyword hdiffers
    · cases h
  · cases h

/-- A comment in the text of a `num` or a keyword cuts this text off: the topics of
    a document with the comment are those without it, but the element in which the
    comment stands has the text that was read up to it. -/
theorem parse_commented {left right comment : List Char} {place : Place} {document : Document}
    (hplace : place? left = some place)
    (hdocument : Document.parse (.ofList (left ++ right)) = some document)
    (hbalanced : EntitiesBalanced (.ofList (left ++ right))) (hcomment : IsComment comment) :
    parse (.ofList (left ++ right)) = ofAccounts 1 (accountsOf document) ∧
      ∃ account text, (accountsOf document)[place.topic]? = some account ∧
        (account.texts place.field)[place.index]? = some text ∧
        parse (.ofList (left ++ (comment ++ right))) = ofAccounts 1
          ((accountsOf document).set place.topic
            (account.setText place.field place.index place.shown)) := by
  obtain ⟨b, topicName, rootBefore, spots, hb, hopened, htop, hspots, htopic, hchanges⟩ :=
    place?_eq_some hplace
  obtain ⟨root', hparse', hdiffers⟩ :=
    Document.parse_insert_comment hb hopened htop hdocument hbalanced hcomment
  have hread := Document.parse_eq_some_iff.1 hdocument
  rw [String.toList_ofList] at hread
  obtain ⟨-, -, -, root, -, -, -, -, rfl⟩ := hread
  rw [hspots] at hdiffers
  obtain ⟨hroot, hroot', account, text, haccount, htext, hall⟩ :=
    accountsOf_commented hdiffers hchanges
  rw [← htopic] at haccount hall
  refine ⟨parse_eq_ofAccounts hdocument hroot, account, text, haccount, htext, ?_⟩
  rw [parse_eq_ofAccounts hparse' hroot', hall]

/-- In the keyword `AB` of a topic, a comment behind `A` leaves the keyword `A`. -/
theorem parse_commented_keyword :
    let left := "<topics><t><num>7</num><query><keyword>A".toList
    let right := "B</keyword></query></t></topics>".toList
    let comment := "<!--c-->".toList
    let place : Place := ⟨0, .keyword, 0, ['A']⟩
    ∃ document, place? left = some place ∧
      Document.parse (.ofList (left ++ right)) = some document ∧
      EntitiesBalanced (.ofList (left ++ right)) ∧ IsComment comment ∧
      parse (.ofList (left ++ right)) = ofAccounts 1 (accountsOf document) ∧
      ∃ account text, (accountsOf document)[place.topic]? = some account ∧
        (account.texts place.field)[place.index]? = some text ∧
        parse (.ofList (left ++ (comment ++ right))) = ofAccounts 1
          ((accountsOf document).set place.topic
            (account.setText place.field place.index place.shown)) := by
  intro left right comment place
  have hplace : place? left = some place := by decide +kernel
  have hparsed : (Document.parse (.ofList (left ++ right))).isSome = true := by decide +kernel
  obtain ⟨document, hdocument⟩ := Option.isSome_iff_exists.1 hparsed
  have hbalanced : EntitiesBalanced (.ofList (left ++ right)) := by decide +kernel
  have hcomment : IsComment comment := ⟨['c'], rfl, rfl, by decide, by decide⟩
  exact ⟨document, hplace, hdocument, hbalanced, hcomment,
    parse_commented hplace hdocument hbalanced hcomment⟩

/-- In the text ` A` of a `num`, a comment behind the space leaves white space only:
    the topic loses its id. -/
theorem parse_num_commented :
    place? "<topics><t><num> ".toList = some ⟨0, .num, 0, [' ']⟩ ∧ IsComment "<!--c-->".toList ∧
      parse "<topics><t><num> A</num></t></topics>" = .ok [⟨"A", [], []⟩] ∧
      parse "<topics><t><num> <!--c-->A</num></t></topics>" = .error (.missingId 1) :=
  ⟨by decide +kernel, ⟨['c'], rfl, rfl, by decide, by decide⟩, by decide +kernel,
    by decide +kernel⟩

end EvalRun.Topics
