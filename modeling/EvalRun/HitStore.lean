import EvalRun.OrderedMap
import EvalRun.Response.Decoder
import EvalRun.Binary64.Rounding

/-! # HitStore — the best score of every document, topic by topic

    Every request of a topic returns hits, and all of them are merged into one
    map from documents to scores:

    * **Boost.** A hit of a request with a formula has the boost added to its
      score; any other hit has zero added.
    * **Maximum.** A document keeps its score unless a greater one comes.
      Scores are never summed, and a NaN neither replaces a score nor is
      replaced.

    A topic is in the store from the first time it is named, even if nothing
    is registered for it, until it is taken out.
-/

namespace EvalRun

/-! ### One topic -/

/-- The documents of a topic with their scores. -/
abbrev TopicHits := OrderedMap Binary64

namespace TopicHits

/-- The score to keep of one that may be stored already and a new one. -/
def better (stored : Option Binary64) (score : Binary64) : Binary64 :=
  match stored with
  | none => score
  | some old => if old.lt score then score else old

/-- The map with one more score of a document. -/
def merge (hits : TopicHits) (doc : String) (score : Binary64) : TopicHits :=
  hits.alter doc fun stored => better stored score

end TopicHits

/-! ### All topics -/

/-- The hits registered so far, with the rules for registering more. -/
structure HitStore where
  /-- Added to the score of every hit of a request with a formula. -/
  boost : Binary64
  /-- Decodes response bodies. -/
  decoder : Response.Decoder
  /-- The topics named so far and not taken out. -/
  topics : OrderedMap TopicHits
  deriving DecidableEq

namespace HitStore

/-- A store without topics. -/
def new (boost : Binary64) (decoder : Response.Decoder) : HitStore := ⟨boost, decoder, .empty⟩

/-- The score with which a hit is merged. -/
def effective (s : HitStore) (hasFormula : Bool) (score : Binary64) : Binary64 :=
  score.add (if hasFormula then s.boost else .zero)

/-- Names a topic, which is in the store from then on. -/
def ensureTopic (s : HitStore) (topic : String) : HitStore :=
  { s with topics := s.topics.alter topic fun hits? => hits?.getD .empty }

/-- The map of a topic with hits merged in, in their order. -/
def mergeHits (s : HitStore) (hasFormula : Bool) (hits : TopicHits) (batch : List Hit) :
    TopicHits :=
  batch.foldl (fun hits hit => hits.merge hit.doc (s.effective hasFormula hit.score)) hits

/-- Merges a batch of hits into a topic. -/
def registerHits (s : HitStore) (topic : String) (batch : List Hit) (hasFormula : Bool) :
    HitStore :=
  { s with
    topics := s.topics.alter topic fun hits? => s.mergeHits hasFormula (hits?.getD .empty) batch }

/-- Decodes a response body and merges its hits. The topic is named even if
    the body is not decoded; in that case nothing is merged. The number is
    that of the hits. -/
def registerResult (s : HitStore) (topic body : String) (hasFormula : Bool) :
    Except Response.DecodeError Nat × HitStore :=
  let s := s.ensureTopic topic
  match s.decoder.decodeBody body with
  | .error e => (.error e, s)
  | .ok hits => (.ok hits.length, s.registerHits topic hits hasFormula)

/-- The map of a topic. -/
def hits? (s : HitStore) (topic : String) : Option TopicHits := s.topics.get? topic

/-- The topic is in the store. -/
def containsTopic (s : HitStore) (topic : String) : Bool := s.topics.contains topic

/-- The score of a document of a topic. -/
def score? (s : HitStore) (topic doc : String) : Option Binary64 := do
  let hits ← s.hits? topic
  hits.get? doc

/-- The number of topics in the store. -/
def topicCount (s : HitStore) : Nat := s.topics.size

/-- Takes a topic out of the store. -/
def take (s : HitStore) (topic : String) : Option TopicHits × HitStore :=
  (s.hits? topic, { s with topics := s.topics.erase topic })

end HitStore

end EvalRun
