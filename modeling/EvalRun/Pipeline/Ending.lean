import EvalRun.Pipeline.Interleaving
import EvalRun.Pipeline.Run

/-! # Pipeline.Ending — how a run may end

    A configuration says how many requests of one topic may be under way at
    once.

    * **One.** The requests of a topic are issued in turn, and a run has the
      one result that `run` computes.
    * **More.** The requests of a topic step in any order. A topic may then end
      in several ways, and so may a run.

    Either way topics are processed one after the other, and the first that
    fails ends the run. So how a run may end is said once, for any account of
    how a topic may end (`Ends`).
-/

namespace EvalRun.Pipeline

/-! ### Topics and runs -/

/-- An account of how a topic may end: from which store, with which result, and
    which store it leaves. -/
abbrev Ends := HitStore → Topic → Except RunError (Option RankedList) → HitStore → Prop

/-- Topics may take a run from one state to another: to the end of all of
    them, or up to the first that fails. -/
inductive TopicsEnd (ends : Ends) (tag : String) :
    Progress → List Topic → Except RunError Unit → Progress → Prop where
  | finished (p : Progress) : TopicsEnd ends tag p [] (.ok ()) p
  | stopped {p : Progress} {topic : Topic} {error : RunError} {store : HitStore}
      (topic_ends : ends p.store topic (.error error) store) (rest : List Topic) :
    TopicsEnd ends tag p (topic :: rest) (.error error) { p with store }
  | further {p last : Progress} {topic : Topic} {rest : List Topic} {list? : Option RankedList}
      {store : HitStore} {outcome : Except RunError Unit}
      (topic_ends : ends p.store topic (.ok list?) store)
      (rest_ends : TopicsEnd ends tag (p.finish tag list? store) rest outcome last) :
    TopicsEnd ends tag p (topic :: rest) outcome last

/-- A run may have this result. -/
def RunEndsBy (ends : Ends) (store : HitStore) (tag : String) (topics : List Topic)
    (result : RunResult) : Prop :=
  ∃ outcome last, TopicsEnd ends tag (.start store) topics outcome last ∧
    result = ⟨outcome.map fun _ => last.summary, last.output, last.store⟩

/-! ### A backend that is a function of the request -/

/-- A topic may end with this result and leave this store, if at most the given
    number of its requests are under way at once. -/
def TopicEnds (threads : Nat) (answer : QueryVariant → Answer) (processor : Processor) : Ends :=
  fun s topic result store =>
    if threads ≤ 1 then
      Id.run (processTopic (.ofFunction answer) processor s topic) = (result, store)
    else Interleaved answer processor s topic result store

/-- A run may have this result, if at most the given number of requests of a
    topic are under way at once. -/
def RunEnds (threads : Nat) (answer : QueryVariant → Answer) (processor : Processor)
    (store : HitStore) (tag : String) (topics : List Topic) (result : RunResult) : Prop :=
  RunEndsBy (TopicEnds threads answer processor) store tag topics result

variable {threads : Nat} {answer : QueryVariant → Answer} {processor : Processor} {tag : String}

theorem topicEnds_iff_of_single (hsingle : threads ≤ 1) {s store : HitStore} {topic : Topic}
    {result : Except RunError (Option RankedList)} :
    TopicEnds threads answer processor s topic result store ↔
      Id.run (processTopic (.ofFunction answer) processor s topic) = (result, store) := by
  rw [TopicEnds, if_pos hsingle]

theorem topicEnds_iff_of_several (hseveral : ¬ threads ≤ 1) {s store : HitStore} {topic : Topic}
    {result : Except RunError (Option RankedList)} :
    TopicEnds threads answer processor s topic result store ↔
      Interleaved answer processor s topic result store := by
  rw [TopicEnds, if_neg hseveral]

/-! ### One request at a time -/

/-- The next topic, for a backend that is a function of the request. -/
theorem runTopics_ofFunction_cons (p : Progress) (topic : Topic) (rest : List Topic) :
    Id.run (runTopics (.ofFunction answer) processor tag p (topic :: rest)) =
      match Id.run (processTopic (.ofFunction answer) processor p.store topic) with
      | (.error e, store) => (.error e, { p with store })
      | (.ok list?, store) =>
        Id.run (runTopics (.ofFunction answer) processor tag (p.finish tag list? store) rest) := by
  rw [runTopics, Id.run_bind]
  rcases Id.run (processTopic (.ofFunction answer) processor p.store topic) with ⟨_ | _, store⟩
  · rfl
  · rfl

/-- With one request at a time, topics take a run where `runTopics` takes
    it. -/
theorem topicsEnd_iff_of_single (hsingle : threads ≤ 1) {p last : Progress}
    {topics : List Topic} {outcome : Except RunError Unit} :
    TopicsEnd (TopicEnds threads answer processor) tag p topics outcome last ↔
      Id.run (runTopics (.ofFunction answer) processor tag p topics) = (outcome, last) := by
  induction topics generalizing p with
  | nil =>
    constructor
    · rintro ⟨⟩
      rfl
    · intro h
      obtain ⟨rfl, rfl⟩ := Prod.mk.inj h
      exact .finished p
  | cons topic rest ih =>
    rw [runTopics_ofFunction_cons]
    constructor
    · intro h
      cases h with
      | stopped topic_ends =>
        rw [(topicEnds_iff_of_single hsingle).1 topic_ends]
      | further topic_ends rest_ends =>
        rw [(topicEnds_iff_of_single hsingle).1 topic_ends]
        exact ih.1 rest_ends
    · intro h
      rcases htopic : Id.run (processTopic (.ofFunction answer) processor p.store topic)
        with ⟨error | list?, store⟩
      · rw [htopic] at h
        obtain ⟨rfl, rfl⟩ := Prod.mk.inj h
        exact .stopped ((topicEnds_iff_of_single hsingle).2 htopic) rest
      · rw [htopic] at h
        exact .further ((topicEnds_iff_of_single hsingle).2 htopic) (ih.2 h)

/-- With one request at a time, a run has the one result of `run`. -/
theorem runEnds_iff_of_single (hsingle : threads ≤ 1) {store : HitStore} {topics : List Topic}
    {result : RunResult} :
    RunEnds threads answer processor store tag topics result ↔
      result = Id.run (run (.ofFunction answer) processor store tag topics) := by
  rcases htopics : Id.run (runTopics (.ofFunction answer) processor tag (.start store) topics)
    with ⟨outcome, last⟩
  have hrun : Id.run (run (.ofFunction answer) processor store tag topics) =
      ⟨outcome.map fun _ => last.summary, last.output, last.store⟩ := by
    rw [run, Id.run_bind, htopics]
    rfl
  rw [hrun]
  constructor
  · rintro ⟨outcome', last', hends, rfl⟩
    rw [topicsEnd_iff_of_single hsingle, htopics] at hends
    obtain ⟨rfl, rfl⟩ := Prod.mk.inj hends
    rfl
  · rintro rfl
    exact ⟨outcome, last, (topicsEnd_iff_of_single hsingle).2 htopics, rfl⟩

end EvalRun.Pipeline
