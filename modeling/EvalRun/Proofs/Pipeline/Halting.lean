import EvalRun.Pipeline.Run
import EvalRun.Proofs.Pipeline.Sequential

/-! # Proofs.Pipeline.Halting — where a run stops

    A run that begins with an empty store has an empty store between any two
    topics, so each topic is processed as if it were the only one.

    * **Finished topics.** Topics whose requests all succeed add the lines of
      the rankings that they have by themselves, and all their requests are
      issued (`runTopics_append`).
    * **The first failure.** A topic with a request that fails ends the run.
      Its requests are issued up to that one, and nothing of it is written.
-/

namespace EvalRun.Pipeline

variable {answer : QueryVariant → Answer} {boost : Binary64} {decoder : Response.Decoder}
  {processor : Processor} {tag : String}

/-! ### Finished topics -/

namespace Progress

/-- A run after topics with the given rankings. -/
def finishAll (p : Progress) (tag : String) (fresh : HitStore)
    (lists : List (Option RankedList)) : Progress :=
  lists.foldl (fun p list? => p.finish tag list? fresh) p

theorem store_finishAll {p : Progress} {fresh : HitStore} (h : p.store = fresh)
    (lists : List (Option RankedList)) : (p.finishAll tag fresh lists).store = fresh := by
  induction lists generalizing p with
  | nil => exact h
  | cons list? rest ih => exact ih (p := p.finish tag list? fresh) rfl

/-- A finished topic writes its lines, before those of the topics behind it. -/
theorem output_finish (p : Progress) (list? : Option RankedList) (store : HitStore)
    (lists : List (Option RankedList)) :
    (p.finish tag list? store).output ++ RunFile.text tag (lists.filterMap id) =
      p.output ++ RunFile.text tag ((list? :: lists).filterMap id) := by
  cases list? with
  | none => simp [finish]
  | some list => simp [finish, RunFile.text_cons, String.append_assoc]

/-- The lines of a topic are written behind those of the topics before it. -/
theorem output_finishAll (p : Progress) (fresh : HitStore) (lists : List (Option RankedList)) :
    (p.finishAll tag fresh lists).output = p.output ++ RunFile.text tag (lists.filterMap id) := by
  induction lists generalizing p with
  | nil => simp [finishAll, RunFile.text]
  | cons list? rest ih =>
    have hcons : p.finishAll tag fresh (list? :: rest)
        = (p.finish tag list? fresh).finishAll tag fresh rest := rfl
    rw [hcons, ih, output_finish]

end Progress

/-- Topics whose requests all succeed are finished one after the other, and all
    their requests are issued in their order. -/
theorem runTopics_append (processor : Processor) (tag : String) {p : Progress}
    (hp : p.store = .new boost decoder)
    {topics : List Topic}
    (hall : ∀ topic ∈ topics, ∀ v ∈ topic.variants, Succeeds answer decoder v)
    (rest : List Topic) (log : List QueryVariant) :
    (runTopics (.logged answer) processor tag p (topics ++ rest)).run log =
      (runTopics (.logged answer) processor tag
        (p.finishAll tag (.new boost decoder)
          (topics.map (rankingOf answer processor (.new boost decoder)))) rest).run
        (log ++ topics.flatMap (·.variants)) := by
  induction topics generalizing p log with
  | nil => simp [Progress.finishAll]
  | cons topic topics ih =>
    have hvariants := hall topic List.mem_cons_self
    -- the topic leaves the store empty, so the rest starts as this one did
    have hrest := ih (p := p.finish tag (rankingOf answer processor (.new boost decoder) topic)
      (.new boost decoder)) rfl (fun t ht => hall t (List.mem_cons_of_mem _ ht))
      (log ++ topic.variants)
    rw [List.append_assoc] at hrest
    rw [List.cons_append, runTopics, StateT.run_bind, hp, processTopic_logged,
      processTopic_eq_rankingOf hvariants, issued_of_succeeds hvariants]
    exact hrest

/-! ### The first failure -/

/-- A topic with a request that fails ends the run with the error of the first
    such request. -/
theorem runTopics_of_fails {p : Progress} (hp : p.store = .new boost decoder) {topic : Topic}
    {done rest : List QueryVariant} {variant : QueryVariant} {fault : RequestFault}
    (hvariants : topic.variants = done ++ variant :: rest)
    (hdone : ∀ v ∈ done, Succeeds answer decoder v)
    (hfault : outcome answer decoder variant = .error fault) (after : List Topic)
    (log : List QueryVariant) :
    (runTopics (.logged answer) processor tag p (topic :: after)).run log =
      ((.error (fault.error topic.id done.length), p), log ++ (done ++ [variant])) := by
  -- the store after the failure is the one that the topic found
  have hstore : { p with store := HitStore.new boost decoder } = p := by
    rw [← hp]
  have htopic := processTopic_logged answer processor boost decoder topic log
  rw [processTopic_of_fails hvariants hdone hfault, hvariants,
    issued_of_fails hdone hfault] at htopic
  calc (runTopics (.logged answer) processor tag p (topic :: after)).run log
      = ((.error (fault.error topic.id done.length),
          { p with store := HitStore.new boost decoder }), log ++ (done ++ [variant])) := by
        rw [runTopics, StateT.run_bind, hp, htopic]
        rfl
    _ = _ := by rw [hstore]

/-- A list with an element of some kind has a first one. -/
theorem exists_first {α : Type} {P : α → Prop} {l : List α} (h : ∃ x ∈ l, P x) :
    ∃ before x after, l = before ++ x :: after ∧ P x ∧ ∀ y ∈ before, ¬ P y := by
  induction l with
  | nil =>
    obtain ⟨x, hx, -⟩ := h
    cases hx
  | cons head rest ih =>
    by_cases hhead : P head
    · exact ⟨[], head, rest, rfl, hhead, by simp⟩
    · have hrest : ∃ x ∈ rest, P x := by
        obtain ⟨x, hx, hPx⟩ := h
        rcases List.mem_cons.1 hx with rfl | hx
        · exact absurd hPx hhead
        · exact ⟨x, hx, hPx⟩
      obtain ⟨before, x, after, rfl, hPx, hbefore⟩ := ih hrest
      refine ⟨head :: before, x, after, rfl, hPx, ?_⟩
      intro y hy
      rcases List.mem_cons.1 hy with rfl | hy
      · exact hhead
      · exact hbefore y hy

/-- What a run comes to, from an empty store.

    If some request fails, the run ends with the error of the first such
    request of the first topic that has one. The requests issued are all those
    of the topics before it and its own up to the one that fails. Written are
    the lines of the topics before it.

    If no request fails, the run ends with a summary. The requests issued are
    those of all topics, and the lines of all topics are written.

    Either way no topic is in the store at the end. -/
theorem run_logged (answer : QueryVariant → Answer) (processor : Processor) (boost : Binary64)
    (decoder : Response.Decoder) (tag : String) (topics : List Topic) :
    ((∃ topic ∈ topics, ∃ v ∈ topic.variants, Fails answer decoder v) →
      ∃ before topic after done variant rest fault result,
        topics = before ++ topic :: after ∧
        topic.variants = done ++ variant :: rest ∧
        (∀ earlier ∈ before, ∀ v ∈ earlier.variants, ¬ Fails answer decoder v) ∧
        (∀ v ∈ done, ¬ Fails answer decoder v) ∧
        outcome answer decoder variant = .error fault ∧
        (run (.logged answer) processor (.new boost decoder) tag topics).run [] =
          (result, before.flatMap (·.variants) ++ (done ++ [variant])) ∧
        result.outcome = .error (fault.error topic.id done.length) ∧
        result.output = RunFile.text tag
          (before.filterMap (rankingOf answer processor (.new boost decoder))) ∧
        result.store = .new boost decoder) ∧
    ((∀ topic ∈ topics, ∀ v ∈ topic.variants, ¬ Fails answer decoder v) →
      ∃ result summary,
        (run (.logged answer) processor (.new boost decoder) tag topics).run [] =
          (result, topics.flatMap (·.variants)) ∧
        result.outcome = .ok summary ∧
        result.output = RunFile.text tag
          (topics.filterMap (rankingOf answer processor (.new boost decoder))) ∧
        result.store = .new boost decoder) := by
  have hrun : (run (.logged answer) processor (.new boost decoder) tag topics).run [] =
      match (runTopics (.logged answer) processor tag
        (.start (.new boost decoder)) topics).run [] with
      | ((outcome, p), log) => (⟨outcome.map fun _ => p.summary, p.output, p.store⟩, log) := rfl
  constructor
  · intro hfails
    obtain ⟨before, topic, after, rfl, hfails, hbefore⟩ := exists_first hfails
    obtain ⟨done, variant, rest, hvariants, ⟨fault, hfault⟩, hdone⟩ := exists_first hfails
    have hbefore' : ∀ earlier ∈ before, ∀ v ∈ earlier.variants, ¬ Fails answer decoder v :=
      fun earlier hearlier v hv hf => hbefore earlier hearlier ⟨v, hv, hf⟩
    have hstart : (Progress.start (.new boost decoder)).store = .new boost decoder := rfl
    rw [runTopics_append processor tag hstart fun earlier hearlier v hv =>
        not_fails_iff.1 (hbefore' earlier hearlier v hv),
      runTopics_of_fails (Progress.store_finishAll hstart _) hvariants
        (fun v hv => not_fails_iff.1 (hdone v hv)) hfault] at hrun
    refine ⟨before, topic, after, done, variant, rest, fault, _, rfl, hvariants, hbefore', hdone,
      hfault, hrun, rfl, ?_, Progress.store_finishAll hstart _⟩
    simp [Progress.output_finishAll, Progress.start, List.filterMap_map]
  · intro hall
    have hstart : (Progress.start (.new boost decoder)).store = .new boost decoder := rfl
    have happend := runTopics_append processor tag hstart
      (fun topic htopic v hv => not_fails_iff.1 (hall topic htopic v hv)) [] []
    rw [List.append_nil] at happend
    rw [happend] at hrun
    refine ⟨_, _, hrun, rfl, ?_, Progress.store_finishAll hstart _⟩
    simp [Progress.output_finishAll, Progress.start, List.filterMap_map]

/-- The second topic stops at its second request: the third is not issued, and
    the error names the second. -/
example :
    let answer : QueryVariant → Answer := fun v =>
      if v.keywords = "slow" then .error .timeout else .ok "[]"
    let topics : List Topic :=
      [⟨"A", [⟨"x", ""⟩]⟩, ⟨"B", [⟨"y", ""⟩, ⟨"slow", ""⟩, ⟨"z", ""⟩]⟩, ⟨"C", [⟨"x", ""⟩]⟩]
    ∃ output store,
      (run (.logged answer) ⟨none, .ofDepth 5⟩ (.new .zero (.ofFormat .auto)) "tag" topics).run [] =
        (⟨.error (.backend "B" 1 .timeout), output, store⟩,
          [⟨"x", ""⟩, ⟨"y", ""⟩, ⟨"slow", ""⟩]) :=
  ⟨_, _, rfl⟩

end EvalRun.Pipeline
