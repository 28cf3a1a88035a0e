import EvalRun.Pipeline.Ending
import EvalRun.Proofs.Pipeline.Halting
import EvalRun.Proofs.Pipeline.Steps
import Mathlib.Data.List.Forall2

/-! # Proofs.Pipeline.Rankings — a run, topic by topic

    As long as no request fails, a topic that finds the store empty leaves it
    empty, whatever the order in which its requests step. So the topics of a
    run do not see each other: a run is a list of rankings, one for every
    topic, and each is one that the topic may come to by itself.

    * **Topics.** Such a topic ends with the ranking of what its requests offer
      (`topicEnds_of_succeeds`), and there is an end for it to come to.
    * **Runs.** The results of a run are those made of such rankings
      (`runEnds_iff_of_succeeds`).
-/

namespace EvalRun.Pipeline

variable {threads : Nat} {answer : QueryVariant → Answer} {boost : Binary64}
  {decoder : Response.Decoder} {processor : Processor} {tag : String}

/-! ### One topic -/

/-- A topic whose requests all succeed ends with the ranking of what they
    offer, and leaves the store empty. -/
theorem topicEnds_of_succeeds {topic : Topic}
    (hall : ∀ v ∈ topic.variants, Succeeds answer decoder v)
    {result : Except RunError (Option RankedList)} {store : HitStore}
    (h : TopicEnds threads answer processor (.new boost decoder) topic result store) :
    store = .new boost decoder ∧ ∃ s : HitStore,
      s.Collects boost decoder topic.id
        (topic.variants.flatMap (requestOffers answer boost decoder)) ∧
      result = .ok (processor.process s topic.id).1 := by
  by_cases hsingle : threads ≤ 1
  · obtain ⟨s, hs, -, hrun⟩ := processTopic_of_succeeds processor boost hall
    rw [topicEnds_iff_of_single hsingle, hrun] at h
    obtain ⟨rfl, rfl⟩ := Prod.mk.inj h
    exact ⟨rfl, s, hs, rfl⟩
  · rw [topicEnds_iff_of_several hsingle] at h
    cases h with
    | ranked schedule hafter hmerged =>
      subst hafter
      have htracks := Flow.tracks_after answer boost decoder topic schedule
      have hcollects := htracks.collects_of_isMerged hmerged
      exact ⟨hcollects.take_eq_new, _, hcollects, rfl⟩
    | stopped schedule hafter settled error mem =>
      subst hafter
      -- an error would be that of a request that fails
      have htracks := Flow.tracks_after answer boost decoder topic schedule
      obtain ⟨i, variant, fault, hvariant, hfault, -⟩ := htracks.exists_of_mem_errors mem
      exact absurd ⟨fault, hfault⟩
        (not_fails_iff.2 (hall variant (List.mem_of_getElem? hvariant)))

/-- A topic whose requests all succeed does end. -/
theorem exists_topicEnds (threads : Nat) (processor : Processor) (boost : Binary64)
    {topic : Topic} (hall : ∀ v ∈ topic.variants, Succeeds answer decoder v) :
    ∃ list?, TopicEnds threads answer processor (.new boost decoder) topic (.ok list?)
      (.new boost decoder) := by
  by_cases hsingle : threads ≤ 1
  · exact ⟨_, (topicEnds_iff_of_single hsingle).2 (processTopic_eq_rankingOf hall)⟩
  · -- every request steps four times, round after round
    have hmerged :
        (Flow.after answer (.new boost decoder) topic (Flow.rounds topic)).IsMerged :=
      Flow.isMerged_after hall fun i hi => (Flow.count_rounds hi).ge
    have htracks := Flow.tracks_after answer boost decoder topic (Flow.rounds topic)
    have hends : Interleaved answer processor (.new boost decoder) topic _ _ :=
      .ranked (Flow.rounds topic) rfl hmerged
    have htaken : (processor.process _ topic.id).2 = .new boost decoder :=
      (htracks.collects_of_isMerged hmerged).take_eq_new
    rw [htaken] at hends
    exact ⟨_, (topicEnds_iff_of_several hsingle).2 hends⟩

/-! ### Runs -/

/-- Rankings that topics may come to, each of them by itself. A topic that
    retrieved nothing has none. -/
def Rankings (threads : Nat) (answer : QueryVariant → Answer) (processor : Processor)
    (fresh : HitStore) (topics : List Topic) (lists : List (Option RankedList)) : Prop :=
  List.Forall₂ (fun topic list? => TopicEnds threads answer processor fresh topic (.ok list?) fresh)
    topics lists

/-- The result of a run whose topics came to the given rankings. -/
def RunResult.ofRankings (tag : String) (store : HitStore) (lists : List (Option RankedList)) :
    RunResult :=
  ⟨.ok (lists.foldl RunSummary.record .zero), RunFile.text tag (lists.filterMap id), store⟩

theorem Progress.summary_finishAll (p : Progress) (fresh : HitStore)
    (lists : List (Option RankedList)) :
    (p.finishAll tag fresh lists).summary = lists.foldl RunSummary.record p.summary := by
  induction lists generalizing p with
  | nil => rfl
  | cons list? rest ih => exact ih (p.finish tag list? fresh)

theorem Progress.store_finishAll_start (fresh : HitStore) (lists : List (Option RankedList)) :
    ((Progress.start fresh).finishAll tag fresh lists).store = fresh :=
  store_finishAll rfl lists

theorem Progress.output_finishAll_start (fresh : HitStore) (lists : List (Option RankedList)) :
    ((Progress.start fresh).finishAll tag fresh lists).output =
      RunFile.text tag (lists.filterMap id) := by
  rw [output_finishAll]
  exact String.empty_append

/-- The result of a run that has finished its topics. -/
theorem RunResult.of_finishAll_start (fresh : HitStore) (lists : List (Option RankedList)) :
    (⟨.ok ((Progress.start fresh).finishAll tag fresh lists).summary,
        ((Progress.start fresh).finishAll tag fresh lists).output,
        ((Progress.start fresh).finishAll tag fresh lists).store⟩ : RunResult) =
      .ofRankings tag fresh lists := by
  rw [Progress.summary_finishAll, Progress.output_finishAll_start,
    Progress.store_finishAll_start]
  rfl

/-- Topics whose requests all succeed are finished one after the other. -/
theorem topicsEnd_iff_of_succeeds {topics : List Topic}
    (hall : ∀ topic ∈ topics, ∀ v ∈ topic.variants, Succeeds answer decoder v)
    {p last : Progress} (hp : p.store = .new boost decoder) {outcome : Except RunError Unit} :
    TopicsEnd (TopicEnds threads answer processor) tag p topics outcome last ↔
      ∃ lists, Rankings threads answer processor (.new boost decoder) topics lists ∧
        outcome = .ok () ∧ last = p.finishAll tag (.new boost decoder) lists := by
  induction topics generalizing p with
  | nil =>
    constructor
    · rintro ⟨⟩
      exact ⟨[], .nil, rfl, rfl⟩
    · rintro ⟨lists, hlists, rfl, rfl⟩
      cases hlists
      exact .finished p
  | cons topic rest ih =>
    have htopic := hall topic List.mem_cons_self
    have hrest := fun t ht => hall t (List.mem_cons_of_mem topic ht)
    constructor
    · intro h
      cases h with
      | stopped topic_ends =>
        rw [hp] at topic_ends
        obtain ⟨-, s, -, hresult⟩ := topicEnds_of_succeeds htopic topic_ends
        cases hresult
      | @further _ _ _ _ list? store _ topic_ends rest_ends =>
        rw [hp] at topic_ends
        -- the topic leaves the store empty, so the rest starts as this one did
        obtain ⟨rfl, -⟩ := topicEnds_of_succeeds htopic topic_ends
        obtain ⟨lists, hlists, houtcome, hlast⟩ := (ih hrest rfl).1 rest_ends
        exact ⟨list? :: lists, .cons topic_ends hlists, houtcome, hlast⟩
    · rintro ⟨lists, hlists, rfl, rfl⟩
      cases hlists with
      | @cons _ list? _ lists topic_ends hlists =>
        refine .further ?_ ((ih hrest rfl).2 ⟨lists, hlists, rfl, rfl⟩)
        rw [hp]
        exact topic_ends

/-- The results of a run none of whose requests fails are those made of
    rankings that its topics may come to by themselves. -/
theorem runEnds_iff_of_succeeds {topics : List Topic}
    (hall : ∀ topic ∈ topics, ∀ v ∈ topic.variants, Succeeds answer decoder v)
    {result : RunResult} :
    RunEnds threads answer processor (.new boost decoder) tag topics result ↔
      ∃ lists, Rankings threads answer processor (.new boost decoder) topics lists ∧
        result = .ofRankings tag (.new boost decoder) lists := by
  have hstart : (Progress.start (.new boost decoder)).store = .new boost decoder := rfl
  constructor
  · rintro ⟨outcome, last, hends, rfl⟩
    obtain ⟨lists, hlists, rfl, rfl⟩ := (topicsEnd_iff_of_succeeds hall hstart).1 hends
    exact ⟨lists, hlists, RunResult.of_finishAll_start _ lists⟩
  · rintro ⟨lists, hlists, rfl⟩
    exact ⟨_, _, (topicsEnd_iff_of_succeeds hall hstart).2 ⟨lists, hlists, rfl, rfl⟩,
      (RunResult.of_finishAll_start _ lists).symm⟩

/-- A run none of whose requests fails has a result. -/
theorem exists_runEnds (threads : Nat) (processor : Processor) (boost : Binary64) (tag : String)
    {topics : List Topic}
    (hall : ∀ topic ∈ topics, ∀ v ∈ topic.variants, Succeeds answer decoder v) :
    ∃ result, RunEnds threads answer processor (.new boost decoder) tag topics result := by
  have hlists : ∃ lists, Rankings threads answer processor (.new boost decoder) topics lists := by
    induction topics with
    | nil => exact ⟨[], .nil⟩
    | cons topic rest ih =>
      obtain ⟨list?, htopic⟩ :=
        exists_topicEnds threads processor boost (hall topic List.mem_cons_self)
      obtain ⟨lists, hrest⟩ := ih fun t ht => hall t (List.mem_cons_of_mem topic ht)
      exact ⟨list? :: lists, .cons htopic hrest⟩
  obtain ⟨lists, hlists⟩ := hlists
  exact ⟨_, (runEnds_iff_of_succeeds hall).2 ⟨lists, hlists, rfl⟩⟩

end EvalRun.Pipeline
