import EvalRun.Pipeline.Topic

/-! # Pipeline.Interleaving — the requests of a topic, side by side

    Where a configuration allows more than one request of a topic to be under
    way at once, the requests share the store and their steps come in any
    order. This module says what may happen then. A request goes through four
    steps, and each of them is atomic:

    * **Query.** The backend gives a body, or the request fails.
    * **Name.** The topic is in the store from here on.
    * **Decode.** The body gives hits, or the request fails.
    * **Merge.** All hits are merged into the topic at once.

    A schedule lists the requests in the order in which they step. Once a
    request has failed, those that have not begun may be left out; those that
    have begun are finished before the topic ends. The topic then ends with
    the error of any request that failed.

    Issuing the requests one after the other is the schedule in which each
    takes all its steps before the next begins; `processTopic` does that.
-/

namespace EvalRun.Pipeline

/-! ### One request -/

/-- How far a request has got. -/
inductive Phase where
  /-- Not begun. -/
  | waiting
  /-- The backend gave a body. -/
  | answered (body : String)
  /-- The topic has been named. -/
  | named (body : String)
  /-- The body gave hits. -/
  | decoded (batch : List Hit)
  /-- The hits are in the store. -/
  | merged
  /-- The request went wrong. -/
  | failed (error : RunError)

namespace Phase

/-- No step is left. -/
def isFinal : Phase → Bool
  | merged | failed _ => true
  | _ => false

/-- The error of a request that went wrong. -/
def error? : Phase → Option RunError
  | failed error => some error
  | _ => none

/-- The next step of the request at an index of a topic, and the store after
    it. A request that is finished stays as it is. -/
def advance (answer : QueryVariant → Answer) (topic : String) (index : Nat)
    (variant : QueryVariant) (s : HitStore) : Phase → Phase × HitStore
  | waiting =>
    match answer variant with
    | .error fault => (failed (.backend topic index fault), s)
    | .ok body => (answered body, s)
  | answered body => (named body, s.ensureTopic topic)
  | named body =>
    match s.decoder.decodeBody body with
    | .error fault => (failed (.malformedResponse topic index fault), s)
    | .ok batch => (decoded batch, s)
  | decoded batch => (merged, s.registerHits topic batch variant.hasFormula)
  | merged => (merged, s)
  | failed error => (failed error, s)

end Phase

/-! ### All requests of a topic -/

/-- The requests of a topic under way, over one store. -/
structure Flow where
  /-- The store that the requests share. -/
  store : HitStore
  /-- The requests in the order of the topic, with their phases. -/
  requests : List (QueryVariant × Phase)

namespace Flow

/-- No request has begun. -/
def begin (s : HitStore) (topic : Topic) : Flow :=
  ⟨s, topic.variants.map fun variant => (variant, .waiting)⟩

/-- One step of the request at an index. -/
def step (answer : QueryVariant → Answer) (topic : String) (f : Flow) (index : Nat) : Flow :=
  match f.requests[index]? with
  | none => f
  | some (variant, phase) =>
    let (phase, store) := phase.advance answer topic index variant f.store
    ⟨store, f.requests.set index (variant, phase)⟩

/-- The steps of a schedule. -/
def along (answer : QueryVariant → Answer) (topic : String) (f : Flow) (schedule : List Nat) :
    Flow :=
  schedule.foldl (step answer topic) f

/-- What a schedule makes of a topic from its first step on. -/
def after (answer : QueryVariant → Answer) (s : HitStore) (topic : Topic) (schedule : List Nat) :
    Flow :=
  (begin s topic).along answer topic.id schedule

/-- The errors of the requests that failed. -/
def errors (f : Flow) : List RunError := f.requests.filterMap fun r => r.2.error?

/-- Every request has put its hits into the store. -/
def IsMerged (f : Flow) : Prop := ∀ r ∈ f.requests, r.2 = .merged

/-- Every request that has begun is finished. -/
def IsSettled (f : Flow) : Prop := ∀ r ∈ f.requests, r.2 = .waiting ∨ r.2.isFinal = true

/-- Steps keep the number of requests. -/
@[simp] theorem length_requests_step (answer : QueryVariant → Answer) (topic : String) (f : Flow)
    (index : Nat) : (f.step answer topic index).requests.length = f.requests.length := by
  unfold step
  split <;> simp

/-- Steps keep what is asked. -/
theorem variants_step (answer : QueryVariant → Answer) (topic : String) (f : Flow) (index : Nat) :
    (f.step answer topic index).requests.map (·.1) = f.requests.map (·.1) := by
  unfold step
  split
  · rfl
  · rename_i variant phase h
    obtain ⟨hi, hv⟩ := List.getElem?_eq_some_iff.1 h
    simp only [List.map_set]
    rw [← List.set_getElem_self (by simpa using hi : index < (f.requests.map (·.1)).length)]
    simp [hv]

end Flow

/-! ### The end of a topic -/

/-- How a topic may end whose requests step by a schedule: ranked, once all
    hits are merged, or taken out of the store with the error of a request
    that failed, once no request is under way. -/
inductive Interleaved (answer : QueryVariant → Answer) (processor : Processor) (s : HitStore)
    (topic : Topic) : Except RunError (Option RankedList) → HitStore → Prop where
  | ranked {f : Flow} (schedule : List Nat) (after : Flow.after answer s topic schedule = f)
      (merged : f.IsMerged) :
    Interleaved answer processor s topic (.ok (processor.process f.store topic.id).1)
      (processor.process f.store topic.id).2
  | stopped {f : Flow} (schedule : List Nat) (after : Flow.after answer s topic schedule = f)
      (settled : f.IsSettled) (error : RunError) (mem : error ∈ f.errors) :
    Interleaved answer processor s topic (.error error) (f.store.take topic.id).2

end EvalRun.Pipeline
