import EvalRun.Pipeline.Ending

/-! # Pipeline.Stateful — a backend with a state

    What a backend answers may depend on all that it was asked before, and on
    whatever else goes on where it runs. Such a backend is a program with a
    state. In each of its states it answers by some function of the request.

    * **One request at a time.** A topic is processed from some state of the
      backend on, as `processTopic` says.
    * **More.** Every step of a request may find the backend in another state,
      since other requests may have come in between.

    Nothing is said here about which states follow one another. So more may
    happen by these accounts than does happen, and what holds of every end that
    they admit holds of every run.
-/

namespace EvalRun

variable {σ : Type}

namespace Backend

/-- What the backend answers in a state. -/
def answerIn (backend : Backend (StateM σ)) (x : σ) (variant : QueryVariant) : Answer :=
  ((backend.query variant).run x).1

/-- The state of the backend after a request. -/
def stateAfter (backend : Backend (StateM σ)) (x : σ) (variant : QueryVariant) : σ :=
  ((backend.query variant).run x).2

/-- The state of the backend after requests, one after the other. -/
def stateAfterAll (backend : Backend (StateM σ)) (x : σ) (variants : List QueryVariant) : σ :=
  variants.foldl backend.stateAfter x

end Backend

namespace Pipeline

/-- What a schedule makes of a topic, each of whose steps finds the backend in
    a state of its own. -/
def Flow.afterStates (backend : Backend (StateM σ)) (s : HitStore) (topic : Topic)
    (schedule : List (σ × Nat)) : Flow :=
  schedule.foldl (fun f move => f.step (backend.answerIn move.1) topic.id move.2)
    (Flow.begin s topic)

/-- How a topic may end whose requests step by a schedule and find the backend
    in any of its states: ranked, once all hits are merged, or taken out of the
    store with the error of a request that failed, once no request is under
    way. -/
inductive InterleavedOver (backend : Backend (StateM σ)) (processor : Processor) (s : HitStore)
    (topic : Topic) : Except RunError (Option RankedList) → HitStore → Prop where
  | ranked {f : Flow} (schedule : List (σ × Nat))
      (after : Flow.afterStates backend s topic schedule = f) (merged : f.IsMerged) :
    InterleavedOver backend processor s topic (.ok (processor.process f.store topic.id).1)
      (processor.process f.store topic.id).2
  | stopped {f : Flow} (schedule : List (σ × Nat))
      (after : Flow.afterStates backend s topic schedule = f) (settled : f.IsSettled)
      (error : RunError) (mem : error ∈ f.errors) :
    InterleavedOver backend processor s topic (.error error) (f.store.take topic.id).2

/-- A topic may end with this result and leave this store, if at most the given
    number of its requests are under way at once. -/
def TopicEndsOver (threads : Nat) (backend : Backend (StateM σ)) (processor : Processor) : Ends :=
  fun s topic result store =>
    if threads ≤ 1 then
      ∃ x y, (processTopic backend processor s topic).run x = ((result, store), y)
    else InterleavedOver backend processor s topic result store

/-- A run may have this result, if at most the given number of requests of a
    topic are under way at once. -/
def RunEndsOver (threads : Nat) (backend : Backend (StateM σ)) (processor : Processor)
    (store : HitStore) (tag : String) (topics : List Topic) (result : RunResult) : Prop :=
  RunEndsBy (TopicEndsOver threads backend processor) store tag topics result

end Pipeline

end EvalRun
