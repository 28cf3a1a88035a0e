import EvalRun.Interchange.Reader
import EvalRun.Interchange.Writer
import EvalRun.Ranking.Entry
import EvalRun.Topics.Source

/-! # Interchange.Ranking — topics, hits and rankings as JSON

    Each type is read as a record whose fields all have to occur, and is
    written with its fields in the same order.
-/

namespace EvalRun.Interchange

/-! ### Topics -/

/-- How a request is read. -/
def variantRecord : Record QueryVariant where
  name := "QueryVariant"
  blank := ⟨"", ""⟩
  required := true
  fields :=
    [⟨"keywords", fun v => do return { v with keywords := ← text }⟩,
      ⟨"formula", fun v => do return { v with formula := ← text }⟩]

/-- A request. -/
def writeVariant (v : QueryVariant) : String :=
  writeObject [("keywords", writeString v.keywords), ("formula", writeString v.formula)]

/-- How a topic is read. -/
def topicRecord : Record Topic where
  name := "Topic"
  blank := ⟨"", []⟩
  required := true
  fields :=
    [⟨"id", fun t => do return { t with id := ← text }⟩,
      ⟨"variants", fun t => do return { t with variants := ← array variantRecord.read }⟩]

/-- A topic. -/
def writeTopic (t : Topic) : String :=
  writeObject [("id", writeString t.id), ("variants", writeArray (t.variants.map writeVariant))]

/-- How a policy is read. -/
def policyRecord : Record Topics.VariantPolicy where
  name := "VariantPolicy"
  blank := ⟨false, false⟩
  required := true
  fields :=
    [⟨"include_keywords", fun p => do return { p with includeKeywords := ← boolean }⟩,
      ⟨"keyword_only_variant", fun p => do return { p with keywordOnlyVariant := ← boolean }⟩]

/-- A policy. -/
def writePolicy (p : Topics.VariantPolicy) : String :=
  writeObject
    [("include_keywords", writeBoolean p.includeKeywords),
      ("keyword_only_variant", writeBoolean p.keywordOnlyVariant)]

/-! ### Hits and rankings -/

/-- How a hit is read. -/
def hitRecord : Record Hit where
  name := "Hit"
  blank := ⟨"", .zero⟩
  required := true
  fields :=
    [⟨"doc_id", fun h => do return { h with doc := ← text }⟩,
      ⟨"score", fun h => do return { h with score := ← double }⟩]

/-- A hit. -/
def writeHit (h : Hit) : String :=
  writeObject [("doc_id", writeString h.doc), ("score", writeDouble h.score)]

/-- The names of origins. -/
def originNames : List (String × Origin) := [("Retrieved", .retrieved), ("Filler", .filler)]

/-- An origin. -/
def writeOrigin : Origin → String
  | .retrieved => writeString "Retrieved"
  | .filler => writeString "Filler"

/-- How a row is read. -/
def entryRecord : Record RankedEntry where
  name := "RankedEntry"
  blank := ⟨"", .zero, 0, .retrieved⟩
  required := true
  fields :=
    [⟨"doc_id", fun e => do return { e with doc := ← text }⟩,
      ⟨"score", fun e => do return { e with score := ← double }⟩,
      ⟨"rank", fun e => do return { e with rank := ← natural 32 "u32" }⟩,
      ⟨"origin", fun e => do return { e with origin := ← choice originNames }⟩]

/-- A row. -/
def writeEntry (e : RankedEntry) : String :=
  writeObject
    [("doc_id", writeString e.doc), ("score", writeDouble e.score), ("rank", writeNatural e.rank),
      ("origin", writeOrigin e.origin)]

/-- How a ranking is read. -/
def listRecord : Record RankedList where
  name := "RankedList"
  blank := ⟨"", [], false, false⟩
  required := true
  fields :=
    [⟨"topic", fun l => do return { l with topic := ← text }⟩,
      ⟨"entries", fun l => do return { l with entries := ← array entryRecord.read }⟩,
      ⟨"truncated", fun l => do return { l with truncated := ← boolean }⟩,
      ⟨"padding_exhausted", fun l => do return { l with paddingExhausted := ← boolean }⟩]

/-- A ranking. -/
def writeList (l : RankedList) : String :=
  writeObject
    [("topic", writeString l.topic), ("entries", writeArray (l.entries.map writeEntry)),
      ("truncated", writeBoolean l.truncated),
      ("padding_exhausted", writeBoolean l.paddingExhausted)]

end EvalRun.Interchange
