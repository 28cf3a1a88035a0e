import EvalRun.Backend
import EvalRun.Ranking.Processor
import EvalRun.RunError

/-! # Pipeline.Topic — one topic, from its requests to its ranking

    The requests of a topic are issued in their order, and the hits of each
    are registered before the next is issued. The first request that fails
    stops the topic; nothing of the topic stays in the store then. Once all
    hits are in, the topic is taken out of the store, padded and ranked.
-/

namespace EvalRun.Pipeline

variable {m : Type → Type} [Monad m]

/-- Registers what the backend gave for a request. -/
def register (s : HitStore) (topic : String) (index : Nat) (variant : QueryVariant) :
    Answer → Except RunError Nat × HitStore
  | .error fault => (.error (.backend topic index fault), s)
  | .ok body =>
    match s.registerResult topic body variant.hasFormula with
    | (.error fault, s) => (.error (.malformedResponse topic index fault), s)
    | (.ok hits, s) => (.ok hits, s)

/-- Issues the requests of a topic and registers what they return, the first
    at the given index. -/
def issueFrom (backend : Backend m) (topic : String) (index : Nat) (s : HitStore) :
    List QueryVariant → m (Except RunError Unit × HitStore)
  | [] => return (.ok (), s)
  | variant :: rest => do
    match register s topic index variant (← backend.query variant) with
    | (.error e, s) => return (.error e, s)
    | (.ok _, s) => issueFrom backend topic (index + 1) s rest

/-- Issues and registers every request of a topic. A topic that fails is
    taken out of the store. -/
def collect (backend : Backend m) (s : HitStore) (topic : Topic) :
    m (Except RunError Unit × HitStore) := do
  match ← issueFrom backend topic.id 0 s topic.variants with
  | (.ok (), s) => return (.ok (), s)
  | (.error e, s) => return (.error e, (s.take topic.id).2)

/-- The ranking of a topic; a topic that retrieved nothing has none. -/
def processTopic (backend : Backend m) (processor : Processor) (s : HitStore) (topic : Topic) :
    m (Except RunError (Option RankedList) × HitStore) := do
  match ← collect backend s topic with
  | (.error e, s) => return (.error e, s)
  | (.ok (), s) =>
    let (list?, s) := processor.process s topic.id
    return (.ok list?, s)

end EvalRun.Pipeline
