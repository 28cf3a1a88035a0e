import EvalRun.Proofs.Pipeline.Stateful

/-! # Proofs.Pipeline.Conversation — a run as a conversation with its backend

    With one request at a time, a run asks all requests of its topics, one
    after the other, until one fails. What it asks does not depend on the
    answers, so a request finds the backend in the state after all requests
    before it (`SucceedFrom`).

    * **Finished topics.** As long as no request fails, topics have the
      rankings that they have by themselves from the states they find
      (`rankingsFrom`).
    * **The first failure.** The first request that fails is the last one
      asked, and nothing of its topic is written.
-/

namespace EvalRun.Pipeline

variable {σ : Type} {backend : Backend (StateM σ)} {processor : Processor} {boost : Binary64}
  {decoder : Response.Decoder} {tag : String}

/-! ### Requests one after the other -/

theorem stateAfterAll_append (x : σ) (first second : List QueryVariant) :
    backend.stateAfterAll x (first ++ second) =
      backend.stateAfterAll (backend.stateAfterAll x first) second :=
  List.foldl_append

/-- Requests succeed that are asked one after the other, the first of them in
    the given state. -/
def SucceedFrom (backend : Backend (StateM σ)) (decoder : Response.Decoder) :
    σ → List QueryVariant → Prop
  | _, [] => True
  | x, variant :: rest =>
    Succeeds (backend.answerIn x) decoder variant ∧
      SucceedFrom backend decoder (backend.stateAfter x variant) rest

theorem succeedFrom_append_iff {x : σ} {first second : List QueryVariant} :
    SucceedFrom backend decoder x (first ++ second) ↔
      SucceedFrom backend decoder x first ∧
        SucceedFrom backend decoder (backend.stateAfterAll x first) second := by
  induction first generalizing x with
  | nil => simp [SucceedFrom, Backend.stateAfterAll]
  | cons variant rest ih =>
    rw [List.cons_append, SucceedFrom, ih, SucceedFrom, and_assoc]
    rfl

/-- Requests that succeed are all registered. -/
theorem issueFrom_of_succeedFrom {topic : String} {variants : List QueryVariant} (index : Nat)
    {s : HitStore} {offered : List (String × Binary64)} {x : σ}
    (hs : s.Collects boost decoder topic offered)
    (hall : SucceedFrom backend decoder x variants) (rest : List QueryVariant) :
    ∃ s' offered', s'.Collects boost decoder topic offered' ∧
      (issueFrom backend topic index s (variants ++ rest)).run x =
        (issueFrom backend topic (index + variants.length) s' rest).run
          (backend.stateAfterAll x variants) := by
  induction variants generalizing index s offered x with
  | nil => exact ⟨s, offered, hs, rfl⟩
  | cons variant variants ih =>
    obtain ⟨hits, next, hregister, hnext, -⟩ := register_of_succeeds index hs hall.1
    obtain ⟨s', offered', hs', hrun⟩ := ih (index + 1) hnext hall.2
    refine ⟨s', offered', hs', ?_⟩
    rw [List.cons_append, run_issueFrom_cons, hregister, List.length_cons,
      Nat.add_comm variants.length, ← Nat.add_assoc]
    exact hrun

/-- The ranking of a topic that is processed by itself from a state of the
    backend on. -/
def rankingIn (backend : Backend (StateM σ)) (processor : Processor) (fresh : HitStore) (x : σ)
    (topic : Topic) : Option RankedList :=
  match ((processTopic backend processor fresh topic).run x).1.1 with
  | .ok list? => list?
  | .error _ => none

/-- A topic whose requests all succeed has the ranking that it has by itself,
    and leaves the store empty. -/
theorem processTopic_of_succeedFrom (processor : Processor) (boost : Binary64) {topic : Topic}
    {x : σ} (hall : SucceedFrom backend decoder x topic.variants) :
    (processTopic backend processor (.new boost decoder) topic).run x =
      ((.ok (rankingIn backend processor (.new boost decoder) x topic), .new boost decoder),
        backend.stateAfterAll x topic.variants) := by
  obtain ⟨s, offered, hs, hissue⟩ :=
    issueFrom_of_succeedFrom 0 (HitStore.collects_new boost decoder topic.id) hall []
  have htaken : (processor.process s topic.id).2 = .new boost decoder := hs.take_eq_new
  have hrun : (processTopic backend processor (.new boost decoder) topic).run x =
      ((.ok (processor.process s topic.id).1, .new boost decoder),
        backend.stateAfterAll x topic.variants) := by
    rw [List.append_nil] at hissue
    rw [run_processTopic, hissue, ← htaken]
    rfl
  unfold rankingIn
  rw [hrun]

/-- The rankings that topics have by themselves, each from the state of the
    backend after the topics before it. -/
def rankingsFrom (backend : Backend (StateM σ)) (processor : Processor) (fresh : HitStore) :
    σ → List Topic → List (Option RankedList)
  | _, [] => []
  | x, topic :: rest =>
    rankingIn backend processor fresh x topic ::
      rankingsFrom backend processor fresh (backend.stateAfterAll x topic.variants) rest

/-- Topics whose requests all succeed are finished one after the other. -/
theorem runTopics_of_succeedFrom (processor : Processor) (tag : String) {p : Progress}
    (hp : p.store = .new boost decoder) {topics : List Topic} {x : σ}
    (hall : SucceedFrom backend decoder x (topics.flatMap (·.variants))) (rest : List Topic) :
    (runTopics backend processor tag p (topics ++ rest)).run x =
      (runTopics backend processor tag
        (p.finishAll tag (.new boost decoder)
          (rankingsFrom backend processor (.new boost decoder) x topics)) rest).run
        (backend.stateAfterAll x (topics.flatMap (·.variants))) := by
  induction topics generalizing p x with
  | nil => rfl
  | cons topic topics ih =>
    rw [List.flatMap_cons, succeedFrom_append_iff] at hall
    have hrest := ih (p := p.finish tag (rankingIn backend processor (.new boost decoder) x topic)
      (.new boost decoder)) rfl hall.2
    rw [List.cons_append, run_runTopics_cons, hp,
      processTopic_of_succeedFrom processor boost hall.1, List.flatMap_cons, stateAfterAll_append]
    exact hrest

/-- A run is its topics, from no progress on. -/
theorem run_run (store : HitStore) (topics : List Topic) (x : σ) :
    (run backend processor store tag topics).run x =
      match (runTopics backend processor tag (.start store) topics).run x with
      | ((outcome, p), y) => (⟨outcome.map fun _ => p.summary, p.output, p.store⟩, y) := rfl

/-- A run none of whose requests fails is made of the rankings that its topics
    have by themselves. -/
theorem run_of_succeedFrom {topics : List Topic} {x : σ}
    (hall : SucceedFrom backend decoder x (topics.flatMap (·.variants))) :
    (run backend processor (.new boost decoder) tag topics).run x =
      (.ofRankings tag (.new boost decoder)
          (rankingsFrom backend processor (.new boost decoder) x topics),
        backend.stateAfterAll x (topics.flatMap (·.variants))) := by
  have hstart : (Progress.start (.new boost decoder)).store = .new boost decoder := rfl
  have htopics := runTopics_of_succeedFrom processor tag hstart hall []
  rw [List.append_nil] at htopics
  rw [run_run, htopics, ← RunResult.of_finishAll_start]
  rfl

end EvalRun.Pipeline
