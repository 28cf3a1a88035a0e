import EvalRun.HitStore
import EvalRun.Ranking.Padder
import EvalRun.Ranking.Ranker

/-! # Ranking.Processor — from the hits of a topic to its ranking

    A topic is processed once all its requests are registered: its map is
    taken out of the store, padded if padding is on, and ranked. A topic that
    is not in the store, or for which no hit was registered, has no ranking;
    it is not padded to a list of fillers.
-/

namespace EvalRun

/-- The rows of a topic's map before padding and ranking. -/
def TopicHits.rows (hits : TopicHits) : List RankedEntry :=
  hits.entries.map fun (doc, score) => .ofRetrieved doc score

/-- How rankings are made. -/
structure Processor where
  /-- Pads short topics; without it they stay short. -/
  padder : Option Padder
  /-- Sorts and cuts. -/
  ranker : Ranker

namespace Processor

/-- The rows of a topic padded, if padding is on, and whether the pool ran
    out. -/
def padded (p : Processor) (topic : String) (rows : List RankedEntry) :
    List RankedEntry × Bool :=
  match p.padder with
  | none => (rows, false)
  | some padder =>
    let (rows, outcome) := padder.pad topic rows
    (rows, outcome.exhausted)

/-- The ranking of a topic's map; a map without documents has none. -/
def rankHits (p : Processor) (topic : String) (hits : TopicHits) : Option RankedList :=
  if hits.isEmpty then none
  else
    let (rows, exhausted) := p.padded topic hits.rows
    some (p.ranker.rank topic rows exhausted)

/-- Takes a topic out of the store and ranks it. -/
def process (p : Processor) (s : HitStore) (topic : String) : Option RankedList × HitStore :=
  let (hits?, s) := s.take topic
  (hits?.bind (p.rankHits topic), s)

end Processor

end EvalRun
