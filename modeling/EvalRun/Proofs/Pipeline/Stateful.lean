import EvalRun.Pipeline.Stateful
import EvalRun.Proofs.Pipeline.Rankings

/-! # Proofs.Pipeline.Stateful — runs over a backend with a state

    Whatever a backend answers, and whichever of its states the requests find,
    a topic that is ranked has the ranking which the processor makes of some
    store. An error comes from a request that fails in some state. So a run
    writes such rankings, of all topics if no request fails in any state, and
    otherwise of the first few (`exists_lists_of_topicsEnd`).
-/

namespace EvalRun.Pipeline

variable {σ : Type} {backend : Backend (StateM σ)} {processor : Processor} {threads : Nat}
  {decoder : Response.Decoder} {tag : String}

/-! ### One request at a time -/

/-- The next request. -/
theorem run_issueFrom_cons (backend : Backend (StateM σ)) (topic : String) (index : Nat)
    (s : HitStore) (variant : QueryVariant) (rest : List QueryVariant) (x : σ) :
    (issueFrom backend topic index s (variant :: rest)).run x =
      match register s topic index variant (backend.answerIn x variant) with
      | (.error e, s) => ((.error e, s), backend.stateAfter x variant)
      | (.ok _, s) =>
        (issueFrom backend topic (index + 1) s rest).run (backend.stateAfter x variant) := by
  have hstep : (issueFrom backend topic index s (variant :: rest)).run x =
      StateT.run (match register s topic index variant (backend.answerIn x variant) with
        | (.error e, s) => pure (.error e, s)
        | (.ok _, s) => issueFrom backend topic (index + 1) s rest)
        (backend.stateAfter x variant) := rfl
  rw [hstep]
  rcases register s topic index variant (backend.answerIn x variant) with ⟨_ | _, s'⟩
  · rfl
  · rfl

/-- A topic is collected, and then it is ranked or, if a request failed, taken
    out of the store. -/
theorem run_processTopic (backend : Backend (StateM σ)) (processor : Processor) (s : HitStore)
    (topic : Topic) (x : σ) :
    (processTopic backend processor s topic).run x =
      match (issueFrom backend topic.id 0 s topic.variants).run x with
      | ((.error e, s), y) => ((.error e, (s.take topic.id).2), y)
      | ((.ok (), s), y) =>
        ((.ok (processor.process s topic.id).1, (processor.process s topic.id).2), y) := by
  simp only [processTopic, collect, bind_assoc, StateT.run_bind]
  rcases (issueFrom backend topic.id 0 s topic.variants).run x with ⟨⟨_ | _, s'⟩, y⟩
  · rfl
  · rfl

/-- The next topic. -/
theorem run_runTopics_cons (backend : Backend (StateM σ)) (processor : Processor) (tag : String)
    (p : Progress) (topic : Topic) (rest : List Topic) (x : σ) :
    (runTopics backend processor tag p (topic :: rest)).run x =
      match (processTopic backend processor p.store topic).run x with
      | ((.error e, store), y) => ((.error e, { p with store }), y)
      | ((.ok list?, store), y) =>
        (runTopics backend processor tag (p.finish tag list? store) rest).run y := by
  rw [runTopics, StateT.run_bind]
  rcases (processTopic backend processor p.store topic).run x with ⟨⟨_ | _, store⟩, y⟩
  · rfl
  · rfl

/-- Registering keeps the decoder, and its error is that of a request that
    fails. -/
theorem register_spec (s : HitStore) (topic : String) (index : Nat) (variant : QueryVariant)
    (answer : QueryVariant → Answer) :
    (register s topic index variant (answer variant)).2.decoder = s.decoder ∧
      ∀ e, (register s topic index variant (answer variant)).1 = .error e →
        Fails answer s.decoder variant := by
  cases houtcome : outcome answer s.decoder variant with
  | ok batch =>
    rw [register_of_ok topic index houtcome]
    exact ⟨rfl, fun e he => by cases he⟩
  | error fault =>
    obtain ⟨s', hregister, hs'⟩ := register_of_error topic index houtcome
    rw [hregister]
    refine ⟨?_, fun _ _ => ⟨fault, houtcome⟩⟩
    rcases hs' with rfl | rfl
    · rfl
    · rfl

/-- Issuing requests keeps the decoder, and its error is that of a request that
    fails in some state. -/
theorem issueFrom_spec {topic : String} {variants : List QueryVariant} {index : Nat}
    {s s' : HitStore} {x y : σ} {outcome : Except RunError Unit}
    (h : (issueFrom backend topic index s variants).run x = ((outcome, s'), y)) :
    s'.decoder = s.decoder ∧
      ∀ e, outcome = .error e → ∃ v ∈ variants, ∃ z, Fails (backend.answerIn z) s.decoder v := by
  induction variants generalizing index s x with
  | nil =>
    obtain ⟨⟨rfl, rfl⟩, rfl⟩ := (Prod.mk.inj h).imp_left Prod.mk.inj
    exact ⟨rfl, fun e he => by cases he⟩
  | cons variant rest ih =>
    rw [run_issueFrom_cons] at h
    obtain ⟨hdecoder, hfails⟩ := register_spec s topic index variant (backend.answerIn x)
    rcases hregister : register s topic index variant (backend.answerIn x variant)
      with ⟨error | hits, next⟩
    · rw [hregister] at h hdecoder hfails
      obtain ⟨⟨rfl, rfl⟩, rfl⟩ := (Prod.mk.inj h).imp_left Prod.mk.inj
      exact ⟨hdecoder, fun e _ => ⟨variant, List.mem_cons_self, x, hfails error rfl⟩⟩
    · rw [hregister] at h hdecoder
      obtain ⟨hkept, hlater⟩ := ih h
      refine ⟨hkept.trans hdecoder, ?_⟩
      intro e he
      obtain ⟨v, hv, z, hz⟩ := hlater e he
      rw [hdecoder] at hz
      exact ⟨v, List.mem_cons_of_mem variant hv, z, hz⟩

/-! ### Several requests at a time -/

/-- A phase that a request may be in, as far as the answers of the backend
    go. -/
def Phase.IsAnswered (backend : Backend (StateM σ)) (decoder : Response.Decoder)
    (variant : QueryVariant) : Phase → Prop
  | answered body | named body => ∃ x, backend.answerIn x variant = .ok body
  | failed _ => ∃ x, Fails (backend.answerIn x) decoder variant
  | _ => True

/-- A step goes from such a phase to such a phase, and keeps the decoder. -/
theorem Phase.IsAnswered.advance {variant : QueryVariant} {p : Phase}
    (h : p.IsAnswered backend decoder variant) (x : σ) (topic : String) (index : Nat)
    {s : HitStore} (hs : s.decoder = decoder) :
    (p.advance (backend.answerIn x) topic index variant s).1.IsAnswered backend decoder variant ∧
      (p.advance (backend.answerIn x) topic index variant s).2.decoder = decoder := by
  cases p with
  | waiting =>
    cases hanswer : backend.answerIn x variant with
    | error fault =>
      simp only [Phase.advance, hanswer]
      exact ⟨⟨x, .backend fault, by simp [outcome, hanswer]⟩, hs⟩
    | ok body =>
      simp only [Phase.advance, hanswer]
      exact ⟨⟨x, hanswer⟩, hs⟩
  | answered body => exact ⟨h, hs⟩
  | named body =>
    obtain ⟨z, hz⟩ := h
    cases hdecode : s.decoder.decodeBody body with
    | error fault =>
      simp only [Phase.advance, hdecode]
      rw [hs] at hdecode
      exact ⟨⟨z, .response fault, by simp [outcome, hz, hdecode]⟩, hs⟩
    | ok batch =>
      simp only [Phase.advance, hdecode]
      exact ⟨trivial, hs⟩
  | decoded batch => exact ⟨trivial, hs⟩
  | merged => exact ⟨trivial, hs⟩
  | failed error => exact ⟨h, hs⟩

/-- All requests of a topic are in such phases. -/
structure Flow.IsAnswered (backend : Backend (StateM σ)) (decoder : Response.Decoder)
    (f : Flow) : Prop where
  decoder_eq : f.store.decoder = decoder
  requests : ∀ r ∈ f.requests, r.2.IsAnswered backend decoder r.1

/-- One step of one request. -/
theorem Flow.IsAnswered.step {f : Flow} (h : f.IsAnswered backend decoder) (x : σ)
    (topic : String) (index : Nat) :
    (f.step (backend.answerIn x) topic index).IsAnswered backend decoder := by
  unfold Flow.step
  split
  · exact h
  · rename_i variant phase hrequest
    obtain ⟨hphase, hstore⟩ :=
      (h.requests _ (List.mem_of_getElem? hrequest)).advance x topic index h.decoder_eq
    refine ⟨hstore, ?_⟩
    intro r hr
    rcases List.mem_or_eq_of_mem_set hr with hr | rfl
    · exact h.requests r hr
    · exact hphase

/-- The steps of a schedule. -/
theorem Flow.isAnswered_afterStates (backend : Backend (StateM σ)) (s : HitStore) (topic : Topic)
    (schedule : List (σ × Nat)) :
    (Flow.afterStates backend s topic schedule).IsAnswered backend s.decoder := by
  have hsteps (f : Flow) (h : f.IsAnswered backend s.decoder) :
      (schedule.foldl (fun f move => f.step (backend.answerIn move.1) topic.id move.2) f).IsAnswered
        backend s.decoder := by
    induction schedule generalizing f with
    | nil => exact h
    | cons move rest ih => exact ih _ (h.step move.1 topic.id move.2)
  apply hsteps
  refine ⟨rfl, ?_⟩
  intro r hr
  obtain ⟨variant, -, rfl⟩ := List.mem_map.1 hr
  trivial

/-- A schedule keeps what is asked. -/
theorem Flow.variants_afterStates (backend : Backend (StateM σ)) (s : HitStore) (topic : Topic)
    (schedule : List (σ × Nat)) :
    (Flow.afterStates backend s topic schedule).requests.map (·.1) = topic.variants := by
  have hsteps (f : Flow) :
      (schedule.foldl (fun f move => f.step (backend.answerIn move.1) topic.id move.2)
        f).requests.map (·.1) = f.requests.map (·.1) := by
    induction schedule generalizing f with
    | nil => rfl
    | cons move rest ih => exact (ih _).trans (variants_step _ topic.id f move.2)
  simp [Flow.afterStates, hsteps, Flow.begin, Function.comp_def]

/-! ### One topic -/

/-- Whatever the answers and their order, a topic keeps the decoder. If it ends
    with a result, that is what the processor makes of some store; if it ends
    with an error, a request of it fails in some state. -/
theorem topicEndsOver_spec {s store : HitStore} {topic : Topic}
    {result : Except RunError (Option RankedList)}
    (h : TopicEndsOver threads backend processor s topic result store) :
    store.decoder = s.decoder ∧
      (∀ list?, result = .ok list? → ∃ s', list? = (processor.process s' topic.id).1) ∧
      ∀ e, result = .error e →
        ∃ v ∈ topic.variants, ∃ x, Fails (backend.answerIn x) s.decoder v := by
  unfold TopicEndsOver at h
  split at h
  · obtain ⟨x, y, hrun⟩ := h
    rw [run_processTopic] at hrun
    rcases hissue : (issueFrom backend topic.id 0 s topic.variants).run x
      with ⟨⟨error | ⟨⟩, s'⟩, z⟩
    · rw [hissue] at hrun
      obtain ⟨⟨rfl, rfl⟩, rfl⟩ := (Prod.mk.inj hrun).imp_left Prod.mk.inj
      obtain ⟨hdecoder, hfails⟩ := issueFrom_spec hissue
      exact ⟨hdecoder, fun list? hlist => (by cases hlist), fun e _ => hfails error rfl⟩
    · rw [hissue] at hrun
      obtain ⟨⟨rfl, rfl⟩, rfl⟩ := (Prod.mk.inj hrun).imp_left Prod.mk.inj
      obtain ⟨hdecoder, -⟩ := issueFrom_spec hissue
      exact ⟨hdecoder, fun list? hlist => ⟨s', (Except.ok.inj hlist).symm⟩,
        fun e he => by cases he⟩
  · cases h with
    | ranked schedule after merged =>
      subst after
      have hanswered := Flow.isAnswered_afterStates backend s topic schedule
      exact ⟨hanswered.decoder_eq, fun list? hlist => ⟨_, (Except.ok.inj hlist).symm⟩,
        fun e he => by cases he⟩
    | stopped schedule after settled error mem =>
      subst after
      have hanswered := Flow.isAnswered_afterStates backend s topic schedule
      refine ⟨hanswered.decoder_eq, fun list? hlist => (by cases hlist), ?_⟩
      intro e _
      -- an error is that of a request in the phase of failure
      obtain ⟨⟨variant, phase⟩, hr, hphase⟩ := List.mem_filterMap.1 mem
      have hvariant : variant ∈ topic.variants := by
        rw [← Flow.variants_afterStates backend s topic schedule]
        exact List.mem_map_of_mem hr
      have hrequest := hanswered.requests _ hr
      cases phase with
      | failed error => exact ⟨variant, hvariant, hrequest⟩
      | _ => cases hphase

/-! ### Runs -/

/-- Rankings that the processor may make for topics, of some store each. -/
def Makes (processor : Processor) (topics : List Topic) (lists : List (Option RankedList)) : Prop :=
  List.Forall₂ (fun topic list? => ∃ s, list? = (processor.process s topic.id).1) topics lists

/-- Whatever the answers and their order, the first topics are ranked, and their
    lines are written. These are all topics, unless a request fails in some
    state. -/
theorem exists_lists_of_topicsEnd {topics : List Topic} {p last : Progress}
    {outcome : Except RunError Unit}
    (h : TopicsEnd (TopicEndsOver threads backend processor) tag p topics outcome last) :
    ∃ done rest lists, topics = done ++ rest ∧ Makes processor done lists ∧
      last.summary = lists.foldl RunSummary.record p.summary ∧
      last.output = p.output ++ RunFile.text tag (lists.filterMap id) ∧
      (outcome = .ok () ∧ rest = [] ∨
        ∃ topic ∈ rest, ∃ v ∈ topic.variants, ∃ x,
          Fails (backend.answerIn x) p.store.decoder v) := by
  induction h with
  | finished p =>
    exact ⟨[], [], [], rfl, .nil, rfl, by simp [RunFile.text], .inl ⟨rfl, rfl⟩⟩
  | @stopped p topic error store topic_ends rest =>
    obtain ⟨-, -, hfails⟩ := topicEndsOver_spec topic_ends
    exact ⟨[], topic :: rest, [], rfl, .nil, rfl, by simp [RunFile.text],
      .inr ⟨topic, List.mem_cons_self, hfails error rfl⟩⟩
  | @further p last topic rest list? store outcome topic_ends rest_ends ih =>
    obtain ⟨hdecoder, hmade, -⟩ := topicEndsOver_spec topic_ends
    obtain ⟨done, left, lists, rfl, hmakes, hsummary, houtput, hend⟩ := ih
    refine ⟨topic :: done, left, list? :: lists, rfl, .cons (hmade list? rfl) hmakes, hsummary,
      ?_, ?_⟩
    · rw [houtput, Progress.output_finish]
    · have hstore : (p.finish tag list? store).store = store := rfl
      rw [hstore, hdecoder] at hend
      exact hend

/-- More ends of topics make more ends of runs. -/
theorem TopicsEnd.mono {ends ends' : Ends}
    (hmono : ∀ s topic result store, ends s topic result store → ends' s topic result store)
    {p last : Progress} {topics : List Topic} {outcome : Except RunError Unit}
    (h : TopicsEnd ends tag p topics outcome last) : TopicsEnd ends' tag p topics outcome last := by
  induction h with
  | finished p => exact .finished p
  | stopped topic_ends rest => exact .stopped (hmono _ _ _ _ topic_ends) rest
  | further topic_ends _ ih => exact .further (hmono _ _ _ _ topic_ends) ih

/-- With one request at a time, what `run` computes is an end of the run. -/
theorem runEndsOver_run (hsingle : threads ≤ 1) (backend : Backend (StateM σ))
    (processor : Processor) (store : HitStore) (tag : String) (topics : List Topic) (x : σ) :
    RunEndsOver threads backend processor store tag topics
      ((run backend processor store tag topics).run x).1 := by
  have htopics (p : Progress) :
      TopicsEnd (TopicEndsOver threads backend processor) tag p topics
        ((runTopics backend processor tag p topics).run x).1.1
        ((runTopics backend processor tag p topics).run x).1.2 := by
    induction topics generalizing p x with
    | nil => exact .finished p
    | cons topic rest ih =>
      rw [run_runTopics_cons]
      rcases htopic : (processTopic backend processor p.store topic).run x
        with ⟨⟨error | list?, store⟩, y⟩
      · exact .stopped ((if_pos hsingle).mpr ⟨x, y, htopic⟩) rest
      · exact .further ((if_pos hsingle).mpr ⟨x, y, htopic⟩) (ih y _)
  exact ⟨_, _, htopics (.start store), rfl⟩

/-- A schedule over one state is one over the function by which the backend
    answers in it. -/
theorem interleavedOver_of_interleaved {x : σ} {s store : HitStore} {topic : Topic}
    {result : Except RunError (Option RankedList)}
    (h : Interleaved (backend.answerIn x) processor s topic result store) :
    InterleavedOver backend processor s topic result store := by
  have hafter (schedule : List Nat) :
      Flow.afterStates backend s topic (schedule.map fun i => (x, i)) =
        Flow.after (backend.answerIn x) s topic schedule := by
    simp only [Flow.afterStates, Flow.after, Flow.along, List.foldl_map]
  cases h with
  | ranked schedule after merged => exact .ranked _ ((hafter schedule).trans after) merged
  | stopped schedule after settled error mem =>
    exact .stopped _ ((hafter schedule).trans after) settled error mem

/-- A run none of whose requests fails in any state has a result. -/
theorem exists_runEndsOver (threads : Nat) (backend : Backend (StateM σ)) (processor : Processor)
    (boost : Binary64) (tag : String) {topics : List Topic}
    (hall : ∀ topic ∈ topics, ∀ v ∈ topic.variants, ∀ x, Succeeds (backend.answerIn x) decoder v)
    (x : σ) :
    ∃ result, RunEndsOver threads backend processor (.new boost decoder) tag topics result := by
  by_cases hsingle : threads ≤ 1
  · exact ⟨_, runEndsOver_run hsingle backend processor (.new boost decoder) tag topics x⟩
  · -- all requests may find the backend in the one state
    obtain ⟨result, outcome, last, hends, hresult⟩ := exists_runEnds threads processor boost tag
      fun topic htopic v hv => hall topic htopic v hv x
    refine ⟨result, outcome, last, hends.mono ?_, hresult⟩
    intro s topic result store htopic
    rw [topicEnds_iff_of_several hsingle] at htopic
    exact (if_neg hsingle).mpr (interleavedOver_of_interleaved htopic)

end EvalRun.Pipeline
