import EvalRun.Query
import EvalRun.Topics.RawTopic

/-! # Topics.Source — the topics of a run

    A policy expands each raw topic into its requests: one for every formula,
    with or without the keywords, and perhaps one for the keywords alone.
    Topics of one id are one topic: the requests of a later one are appended
    to the first.
-/

namespace EvalRun.Topics

/-- How a raw topic becomes requests. -/
structure VariantPolicy where
  /-- Requests carry the keywords of the topic. -/
  includeKeywords : Bool
  /-- A request without a formula comes last. -/
  keywordOnlyVariant : Bool
  deriving DecidableEq, Repr

namespace VariantPolicy

/-- Keywords with every formula, then the keywords alone. -/
def ntcir : VariantPolicy := ⟨true, true⟩

/-- Formulas alone. -/
def wiki : VariantPolicy := ⟨false, false⟩

/-- The text that every request of a topic carries. -/
def keywordText (policy : VariantPolicy) (raw : RawTopic) : String :=
  if policy.includeKeywords then String.intercalate " " raw.keywords else ""

/-- The requests of a raw topic. -/
def variants (policy : VariantPolicy) (raw : RawTopic) : List QueryVariant :=
  let text := policy.keywordText raw
  raw.formulas.map (fun formula => ⟨text, formula⟩) ++
    if policy.keywordOnlyVariant then [.keywordsOnly text] else []

/-- A raw topic expanded. -/
def expand (policy : VariantPolicy) (raw : RawTopic) : Topic := ⟨raw.id, policy.variants raw⟩

end VariantPolicy

/-- Topics with one more, which joins the topic of its id if there is one. -/
def joinTopic (topic : Topic) : List Topic → List Topic
  | [] => [topic]
  | other :: rest =>
    if other.id = topic.id then { other with variants := other.variants ++ topic.variants } :: rest
    else other :: joinTopic topic rest

/-- The topics of a run in the order in which their ids first occur. -/
structure Source where
  topics : List Topic
  deriving DecidableEq, Repr

namespace Source

/-- Topics joined by their ids. -/
def ofTopics (topics : List Topic) : Source := ⟨topics.foldl (fun ts t => joinTopic t ts) []⟩

/-- Raw topics expanded and joined. -/
def ofRaw (policy : VariantPolicy) (raws : List RawTopic) : Source :=
  ofTopics (raws.map policy.expand)

/-- The number of topics. -/
def size (s : Source) : Nat := s.topics.length

/-- There are no topics. -/
def isEmpty (s : Source) : Bool := s.topics.isEmpty

/-- The number of requests of all topics. -/
def variantCount (s : Source) : Nat := (s.topics.flatMap fun t => t.variants).length

/-- Reads and expands a topic document. -/
def parse (policy : VariantPolicy) (text : String) : Except DocumentFault Source :=
  (Topics.parse text).map (ofRaw policy)

end Source

end EvalRun.Topics
