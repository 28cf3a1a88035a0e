import EvalRun.HitStore
import EvalRun.Proofs.Topics.Extraction
import EvalRun.Proofs.Topics.Joining
import EvalRun.Proofs.Xml.Written
import Mathlib.Algebra.Ring.Nat

/-! # Proofs.Topics.Grouping — grouping topics loses and invents no request

    Joining topics one after another comes to a table: one topic for every id,
    with the requests of all topics of this id in their order
    (`Source.ofTopics_topics`). All that is asked of a source is read off the
    table: which ids it has and in which order, which requests each topic has
    and how many there are (`IsGrouped`), and that the source of two lists is
    that of the first with the topics of the second appended.

    A request is boosted if its formula is not empty. The formulas of a
    document are what its elements are written with, so a request is boosted
    if and only if it stems from an element — unless an entity closes an
    element that it did not open: such an element may be written with nothing
    (`not_stemsFrom_unbalanced`).
-/

namespace EvalRun.Topics

open Xml (Node)

/-! ### The table of joined topics -/

/-- The requests of all topics of an id, in their order. -/
def variantsOf (id : String) (topics : List Topic) : List QueryVariant :=
  (topics.filter fun topic => topic.id = id).flatMap fun topic => topic.variants

@[simp] theorem variantsOf_append (id : String) (topics later : List Topic) :
    variantsOf id (topics ++ later) = variantsOf id topics ++ variantsOf id later := by
  simp [variantsOf]

theorem variantsOf_singleton (id : String) (topic : Topic) :
    variantsOf id [topic] = if topic.id = id then topic.variants else [] := by
  by_cases hid : topic.id = id
  · simp [variantsOf, hid]
  · simp [variantsOf, hid]

/-- No topic of the id, no requests. -/
theorem variantsOf_eq_nil {id : String} {topics : List Topic} (hid : id ∉ topics.map (·.id)) :
    variantsOf id topics = [] := by
  rw [variantsOf, List.filter_eq_nil_iff.2, List.flatMap_nil]
  intro topic htopic heq
  exact hid (List.mem_map.2 ⟨topic, htopic, by simpa using heq⟩)

/-- One topic for every id of a list, with requests given for each. -/
def table (ids : List String) (requests : String → List QueryVariant) : List Topic :=
  ids.map fun id => ⟨id, requests id⟩

theorem table_congr {ids : List String} {requests requests' : String → List QueryVariant}
    (h : ∀ id ∈ ids, requests id = requests' id) : table ids requests = table ids requests' :=
  List.map_congr_left fun id hid => by rw [h id hid]

theorem table_append (ids later : List String) (requests : String → List QueryVariant) :
    table (ids ++ later) requests = table ids requests ++ table later requests :=
  List.map_append

/-- A topic joins a table in its row, or becomes the last row. -/
theorem joinTopic_table (topic : Topic) {ids : List String} (hnodup : ids.Nodup)
    (requests : String → List QueryVariant) :
    joinTopic topic (table ids requests) =
      if topic.id ∈ ids then table ids fun id => requests id ++ variantsOf id [topic]
      else table ids requests ++ [topic] := by
  induction ids with
  | nil => rfl
  | cons id rest ih =>
    obtain ⟨hid, hrest⟩ := List.nodup_cons.1 hnodup
    rw [table, List.map_cons, joinTopic]
    by_cases heq : id = topic.id
    · -- the other rows have other ids
      have hothers : table rest requests =
          table rest fun other => requests other ++ variantsOf other [topic] := by
        apply table_congr
        intro other hother
        have hne : topic.id ≠ other := by
          rintro rfl
          exact hid (heq ▸ hother)
        rw [variantsOf_singleton, if_neg hne, List.append_nil]
      rw [if_pos heq, if_pos (by simp [heq]), table, List.map_cons, variantsOf_singleton,
        if_pos heq.symm]
      exact congrArg _ hothers
    · have hne : ¬ topic.id = id := fun h => heq h.symm
      rw [if_neg heq]
      change _ :: joinTopic topic (table rest requests) = _
      rw [ih hrest]
      by_cases hmem : topic.id ∈ rest
      · simp [hmem, table, variantsOf_singleton, hne]
      · simp [hmem, hne, table]

/-- Topics joined one after another are the table of their ids, each with the
    requests of all topics of it. -/
theorem foldl_joinTopic (topics : List Topic) :
    topics.foldl (fun joined topic => joinTopic topic joined) [] =
      table (topics.map (·.id)).eraseDups fun id => variantsOf id topics := by
  induction topics using List.reverseRecOn with
  | nil => rfl
  | append_singleton earlier topic ih =>
    rw [List.foldl_concat, ih, joinTopic_table topic (nodup_eraseDups _), List.map_append,
      List.map_singleton, eraseDups_concat]
    simp only [List.mem_eraseDups, variantsOf_append]
    by_cases hid : topic.id ∈ earlier.map (·.id)
    · rw [if_pos hid, if_pos hid]
    · rw [if_neg hid, if_neg hid]
      have hold : ∀ id ∈ (earlier.map (·.id)).eraseDups,
          variantsOf id earlier = variantsOf id earlier ++ variantsOf id [topic] := by
        intro id hmem
        have hne : ¬ topic.id = id := fun h => hid (h ▸ List.mem_eraseDups.1 hmem)
        rw [variantsOf_singleton, if_neg hne, List.append_nil]
      have hnew :
          topic = ⟨topic.id, variantsOf topic.id earlier ++ variantsOf topic.id [topic]⟩ := by
        rw [variantsOf_eq_nil hid, variantsOf_singleton, if_pos rfl, List.nil_append]
      rw [table_append, table_congr hold]
      exact congrArg (_ ++ [·]) hnew

/-- The requests of an id in a table are those of its row. -/
theorem variantsOf_table {ids : List String} (hnodup : ids.Nodup)
    (requests : String → List QueryVariant) (id : String) :
    variantsOf id (table ids requests) = if id ∈ ids then requests id else [] := by
  induction ids with
  | nil => rfl
  | cons other rest ih =>
    obtain ⟨hother, hrest⟩ := List.nodup_cons.1 hnodup
    have hcons : variantsOf id (table (other :: rest) requests) =
        variantsOf id [⟨other, requests other⟩] ++ variantsOf id (table rest requests) :=
      variantsOf_append id [⟨other, requests other⟩] (table rest requests)
    rw [hcons, ih hrest, variantsOf_singleton]
    by_cases heq : other = id
    · subst heq
      simp [hother]
    · have hne : ¬ id = other := fun h => heq h.symm
      simp [heq, hne]

/-- Of two lists of ids, the second adds those that the first has not. -/
theorem eraseDups_append_eq (ids later : List String) :
    (ids ++ later).eraseDups = ids.eraseDups ++ later.eraseDups.filter (· ∉ ids) := by
  induction later using List.reverseRecOn with
  | nil => simp
  | append_singleton before id ih =>
    rw [← List.append_assoc, eraseDups_concat, eraseDups_concat, ih]
    by_cases hids : id ∈ ids
    · by_cases hbefore : id ∈ before
      · simp [hids, hbefore]
      · simp [hids, hbefore]
    · by_cases hbefore : id ∈ before
      · simp [hids, hbefore]
      · simp [hids, hbefore]

/-! ### Sources -/

namespace Source

/-- The topics of one source with those of another appended: each joins the
    topic of its id, and those of other ids come behind. -/
def appended (s later : Source) : Source :=
  ⟨(s.topics.map fun topic =>
      { topic with variants := topic.variants ++ variantsOf topic.id later.topics }) ++
    later.topics.filter fun topic => topic.id ∉ s.topics.map (·.id)⟩

theorem ofTopics_topics (topics : List Topic) :
    (ofTopics topics).topics = table (topics.map (·.id)).eraseDups fun id => variantsOf id topics :=
  foldl_joinTopic topics

/-- The source of topics behind others is theirs appended. -/
theorem ofTopics_append (topics later : List Topic) :
    ofTopics (topics ++ later) = (ofTopics topics).appended (ofTopics later) := by
  have hids : ∀ id, id ∈ (topics.map (·.id)).eraseDups ↔ id ∈ topics.map (·.id) :=
    fun _ => List.mem_eraseDups
  -- the requests of the second source are those of its topics
  have hlater (id : String) : variantsOf id (ofTopics later).topics = variantsOf id later := by
    rw [ofTopics_topics, variantsOf_table (nodup_eraseDups _)]
    by_cases hid : id ∈ later.map (·.id)
    · rw [if_pos (List.mem_eraseDups.2 hid)]
    · rw [if_neg (fun h => hid (List.mem_eraseDups.1 h)), variantsOf_eq_nil hid]
  have hfirst : (table (topics.map (·.id)).eraseDups fun id => variantsOf id (topics ++ later)) =
      (ofTopics topics).topics.map fun topic => { topic with
        variants := topic.variants ++ variantsOf topic.id (ofTopics later).topics } := by
    simp only [ofTopics_topics topics, table, List.map_map, Function.comp_def, hlater,
      variantsOf_append]
  have hrest : (table ((later.map (·.id)).eraseDups.filter (· ∉ topics.map (·.id)))
        fun id => variantsOf id (topics ++ later)) =
      (ofTopics later).topics.filter fun topic =>
        topic.id ∉ (ofTopics topics).topics.map (·.id) := by
    rw [map_id_ofTopics, ofTopics_topics later, table, table, List.filter_map]
    simp only [Function.comp_def, hids]
    apply List.map_congr_left
    intro id hid
    have hnew : id ∉ topics.map (·.id) := by simpa using (List.mem_filter.1 hid).2
    rw [variantsOf_append, variantsOf_eq_nil hnew, List.nil_append]
  have htopics : (ofTopics (topics ++ later)).topics =
      ((ofTopics topics).appended (ofTopics later)).topics := by
    rw [ofTopics_topics, List.map_append, eraseDups_append_eq, table_append, hfirst, hrest]
    rfl
  exact congrArg Source.mk htopics

/-- Topics joined one after another have as many requests as all of them. -/
theorem variantCount_ofTopics (topics : List Topic) :
    (ofTopics topics).variantCount = (topics.map fun topic => topic.variants.length).sum := by
  have hjoin (topic : Topic) (joined : List Topic) :
      ((joinTopic topic joined).flatMap fun t => t.variants).length =
        (joined.flatMap fun t => t.variants).length + topic.variants.length := by
    induction joined with
    | nil => simp [joinTopic]
    | cons other rest ih =>
      unfold joinTopic
      split
      · simp only [List.flatMap_cons, List.length_append]
        omega
      · simp only [List.flatMap_cons, List.length_append, ih]
        omega
  unfold variantCount ofTopics
  induction topics using List.reverseRecOn with
  | nil => rfl
  | append_singleton earlier topic ih =>
    rw [List.foldl_concat, hjoin, ih, List.map_append, List.sum_append, List.map_singleton,
      List.sum_singleton]

end Source

/-! ### Raw topics -/

/-- What grouping raw topics has to give. -/
structure IsGrouped (policy : VariantPolicy) (raws : List RawTopic) (s : Source) : Prop where
  /-- No two topics have one id. -/
  nodup_ids : (s.topics.map (·.id)).Nodup
  /-- Every raw topic has its id there, and there is no other. -/
  mem_ids_iff : ∀ id, id ∈ s.topics.map (·.id) ↔ ∃ raw ∈ raws, raw.id = id
  /-- The topics stand in the order in which their ids first occur. -/
  first_occurrence : (s.topics.map (·.id)).Pairwise fun id id' =>
    (raws.map (·.id)).idxOf id < (raws.map (·.id)).idxOf id'
  /-- The requests of a topic are those of all raw topics of its id, each
      expanded, in their order. -/
  variants : ∀ topic ∈ s.topics, topic.variants =
    (raws.filter fun raw => raw.id = topic.id).flatMap policy.variants
  /-- There is one request for every formula, and one more for every raw topic
      if the policy asks for it. -/
  variantCount : s.variantCount =
    (raws.map fun raw => raw.formulas.length + if policy.keywordOnlyVariant then 1 else 0).sum

theorem VariantPolicy.variants_eq (policy : VariantPolicy) (raw : RawTopic) :
    policy.variants raw = raw.formulas.map (fun formula => ⟨policy.keywordText raw, formula⟩) ++
      if policy.keywordOnlyVariant then [.keywordsOnly (policy.keywordText raw)] else [] := rfl

/-- A raw topic has a request for every formula, and perhaps one more. -/
theorem VariantPolicy.length_variants (policy : VariantPolicy) (raw : RawTopic) :
    (policy.variants raw).length =
      raw.formulas.length + if policy.keywordOnlyVariant then 1 else 0 := by
  rw [variants_eq, List.length_append, List.length_map]
  split <;> rfl

/-- The requests of expanded raw topics. -/
theorem variantsOf_map_expand (policy : VariantPolicy) (id : String) (raws : List RawTopic) :
    variantsOf id (raws.map policy.expand) =
      (raws.filter fun raw => raw.id = id).flatMap policy.variants := by
  rw [variantsOf, List.filter_map, List.flatMap_map]
  rfl

theorem isGrouped_ofRaw (policy : VariantPolicy) (raws : List RawTopic) :
    IsGrouped policy raws (.ofRaw policy raws) := by
  refine ⟨?_, ?_, ?_, ?_, ?_⟩
  · rw [Source.map_id_ofRaw]
    exact nodup_eraseDups _
  · intro id
    rw [Source.map_id_ofRaw, List.mem_eraseDups, List.mem_map]
  · rw [Source.map_id_ofRaw]
    exact pairwise_idxOf_eraseDups _
  · intro topic htopic
    rw [Source.ofRaw, Source.ofTopics_topics] at htopic
    obtain ⟨id, -, rfl⟩ := List.mem_map.1 htopic
    exact variantsOf_map_expand policy id raws
  · rw [Source.ofRaw, Source.variantCount_ofTopics, List.map_map]
    congr 1
    exact List.map_congr_left fun raw _ => policy.length_variants raw

/-! ### Where requests stem from -/

/-- What the requests of a topic stem from: its formula elements one after
    another, and no element for the request by keywords alone. -/
def origins (policy : VariantPolicy) (topic : Node) : List (Option Node) :=
  (formulasIn topic).map some ++ if policy.keywordOnlyVariant then [none] else []

/-- The request stems from an element of a document, or from none: its formula
    is what the element is written with, and its hits are boosted if and only
    if there is an element. -/
structure StemsFrom (document : List Char) (v : QueryVariant) (origin : Option Node) : Prop where
  formula : v.formula = String.ofList ((origin.map fun e => e.source document).getD [])
  hasFormula : v.hasFormula = origin.isSome
  boost : ∀ (s : HitStore) (score : Binary64),
    s.effective v.hasFormula score = score.add (if origin.isSome then s.boost else .zero)

variable {document : List Char} {topic : Node} {raw : RawTopic}

/-- A request for a formula stems from the element, if this is written with
    some characters. -/
theorem stemsFrom_some {formula : Node} (hwritten : formula.source document ≠ []) (text : String) :
    StemsFrom document ⟨text, String.ofList (formula.source document)⟩ (some formula) := by
  have hformula :
      QueryVariant.hasFormula ⟨text, String.ofList (formula.source document)⟩ = true := by
    simpa [QueryVariant.hasFormula, ← String.toList_inj] using hwritten
  refine ⟨rfl, hformula, fun s score => ?_⟩
  rw [hformula]
  rfl

/-- A request by keywords alone stems from no element. -/
theorem stemsFrom_none (text : String) :
    StemsFrom document (.keywordsOnly text) none := ⟨rfl, rfl, fun _ _ => rfl⟩

/-- Where the formulas of an element are written with some characters, each
    request stems from its element. -/
theorem forall₂_stemsFrom (policy : VariantPolicy) (htold : Says document topic raw)
    (hwritten : ∀ formula ∈ formulasIn topic, formula.source document ≠ []) :
    List.Forall₂ (StemsFrom document) (policy.variants raw) (origins policy topic) := by
  unfold origins
  rw [policy.variants_eq, htold.formulas, List.map_map]
  apply List.rel_append
  · rw [List.forall₂_map_left_iff, List.forall₂_map_right_iff, List.forall₂_same]
    exact fun formula hformula => stemsFrom_some (hwritten formula hformula) _
  · cases policy.keywordOnlyVariant with
    | true => exact .cons (stemsFrom_none _) .nil
    | false => exact .nil

/-- The formulas of a written element are written. -/
theorem source_ne_nil_of_mem_formulasIn (h : topic.IsWritten document) {formula : Node}
    (hformula : formula ∈ formulasIn topic) : formula.source document ≠ [] := by
  unfold formulasIn formulaElements at hformula
  split at hformula
  · exact h.source_ne_nil hformula
  · exact h.source_ne_nil hformula

/-- Grouping loses and invents no request: of any raw topics, and of two lists
    of them one behind the other. Of the raw topics of a document whose
    entities are balanced, a request is boosted if and only if it stems from an
    element. -/
theorem ofRaw_grouped_and_boosted (policy : VariantPolicy) (raws later : List RawTopic) :
    IsGrouped policy raws (.ofRaw policy raws) ∧
    Source.ofRaw policy (raws ++ later) =
      (Source.ofRaw policy raws).appended (.ofRaw policy later) ∧
    ∀ text, Xml.EntitiesBalanced text → ∀ raws', Topics.parse text = .ok raws' →
      ∃ document, Xml.Document.parse text = some document ∧
        List.Forall₂ (fun topic raw =>
            List.Forall₂ (StemsFrom text.toList) (policy.variants raw) (origins policy topic))
          document.root.elements raws' := by
  refine ⟨isGrouped_ofRaw policy raws, ?_, ?_⟩
  · unfold Source.ofRaw
    rw [List.map_append, Source.ofTopics_append]
  · intro text hbalanced raws' hraws
    obtain ⟨document, hdocument, htold⟩ := exists_says_of_parse hraws
    have hroot := Xml.Document.isWritten_root hbalanced hdocument
    have hchildren : ∀ topic ∈ document.root.elements, topic.IsWritten text.toList :=
      fun topic htopic => hroot.of_mem_children (List.mem_filter.1 htopic).1
    refine ⟨document, hdocument, ((List.forall₂_and_left _ _).2 ⟨hchildren, htold⟩).imp ?_⟩
    rintro topic raw ⟨hwritten, htold⟩
    exact forall₂_stemsFrom policy htold fun formula hformula =>
      source_ne_nil_of_mem_formulasIn hwritten hformula

/-- Two raw topics of one id around another, and a document with a formula in an
    entity. -/
theorem ofRaw_grouped_and_boosted_repeated :
    let raws : List RawTopic := [⟨"A", ["k"], ["<x/>"]⟩, ⟨"B", [], []⟩]
    let later : List RawTopic := [⟨"A", [], ["<y/>", "<z/>"]⟩]
    let text : String := "<!DOCTYPE topics [<!ENTITY x '<apply>x</apply>'>]><topics><t>" ++
      "<num>T</num><query><formula><math><semantics>&x;<apply/></semantics></math></formula>" ++
      "</query></t></topics>"
    Xml.EntitiesBalanced text ∧
    Topics.parse text = .ok [⟨"T", [], ["<apply>x</apply>", "<apply/>"]⟩] ∧
    IsGrouped .ntcir raws (.ofRaw .ntcir raws) ∧
    Source.ofRaw .ntcir (raws ++ later) =
      (Source.ofRaw .ntcir raws).appended (.ofRaw .ntcir later) ∧
    ∃ document, Xml.Document.parse text = some document ∧
      List.Forall₂ (fun topic raw => List.Forall₂ (StemsFrom text.toList)
          (VariantPolicy.ntcir.variants raw) (origins .ntcir topic))
        document.root.elements [⟨"T", [], ["<apply>x</apply>", "<apply/>"]⟩] := by
  intro raws later text
  have hbalanced : Xml.EntitiesBalanced text := by decide +kernel
  have hparse : Topics.parse text = .ok [⟨"T", [], ["<apply>x</apply>", "<apply/>"]⟩] := by
    decide +kernel
  obtain ⟨hgrouped, happended, hboosted⟩ := ofRaw_grouped_and_boosted .ntcir raws later
  exact ⟨hbalanced, hparse, hgrouped, happended, hboosted text hbalanced _ hparse⟩

/-- An entity closes an element that it did not open, and the element is
    written with nothing: the second of three formulas has no markup, and its
    request is not boosted. -/
theorem not_stemsFrom_unbalanced :
    let text : String := "<!DOCTYPE topics [<!ENTITY f '<b/></c>'><!ENTITY g '<apply>'>" ++
      "<!ENTITY e '<c>&f;</apply><apply>'><!ENTITY h '<b/></apply>'>]><topics><t><num>T</num>" ++
      "<query><formula><math><semantics>&g;&e;&e;&h;</semantics></math></formula></query></t>" ++
      "</topics>"
    let raw : RawTopic :=
      ⟨"T", [], ["<apply>'><!ENTITY e '<c>&f;</apply>", "", "<apply>'><!ENTITY h '<b/></apply>"]⟩
    ∃ document topic, Xml.Document.parse text = some document ∧
      document.root.elements = [topic] ∧ Topics.parse text = .ok [raw] ∧
      (formulasIn topic).length = 3 ∧
      (VariantPolicy.wiki.variants raw).map (·.hasFormula) = [true, false, true] ∧
      ¬ List.Forall₂ (StemsFrom text.toList) (VariantPolicy.wiki.variants raw)
        (origins .wiki topic) := by
  intro text raw
  have hparse : Topics.parse text = .ok [raw] := by decide +kernel
  obtain ⟨document, hdocument, hall⟩ := exists_says_of_parse hparse
  obtain ⟨topic, rest, htold, hrest, htopics⟩ := List.forall₂_cons_right_iff.1 hall
  rw [List.forall₂_nil_right_iff.1 hrest] at htopics
  have hmarks : (VariantPolicy.wiki.variants raw).map (·.hasFormula) = [true, false, true] := by
    decide
  have hlength : (formulasIn topic).length = 3 := by
    rw [← List.length_map, ← htold.formulas]
    rfl
  refine ⟨document, topic, hdocument, htopics, hparse, hlength, hmarks, ?_⟩
  -- if each request stemmed from its element, each would be boosted
  intro hstems
  have hequal : (VariantPolicy.wiki.variants raw).map (·.hasFormula) =
      (origins .wiki topic).map (·.isSome) := by
    rw [← List.forall₂_eq_eq_eq, List.forall₂_map_left_iff, List.forall₂_map_right_iff]
    exact hstems.imp fun _ _ h => h.hasFormula
  have hunmarked : false ∈ (origins .wiki topic).map (·.isSome) := by
    rw [← hequal, hmarks]
    decide
  simp [origins, VariantPolicy.wiki] at hunmarked

end EvalRun.Topics
