import EvalRun.Proofs.Pipeline.Rankings

/-! # Proofs.Pipeline.Independence — topics do not interfere

    Results of runs can be put one behind the other: outputs are joined and
    summaries are added up. As long as no request fails, a run over two lists
    of topics is the runs over each of them, one behind the other, and so a run
    is its topics' runs in turn. Nothing is asked of the topics: ids may repeat
    in one list and across both.

    With several requests under way a run may have several results, so there
    the statements are about all results that it may have.
-/

namespace EvalRun.Pipeline

/-! ### Results in turn -/

/-- Summaries add up field by field. -/
instance : Add RunSummary where
  add a b :=
    { topicsSeen := a.topicsSeen + b.topicsSeen
      topicsWritten := a.topicsWritten + b.topicsWritten
      topicsDropped := a.topicsDropped + b.topicsDropped
      rowsWritten := a.rowsWritten + b.rowsWritten
      topicsShort := a.topicsShort + b.topicsShort }

namespace RunSummary

theorem add_def (a b : RunSummary) :
    a + b = ⟨a.topicsSeen + b.topicsSeen, a.topicsWritten + b.topicsWritten,
      a.topicsDropped + b.topicsDropped, a.rowsWritten + b.rowsWritten,
      a.topicsShort + b.topicsShort⟩ := rfl

theorem add_assoc (a b c : RunSummary) : a + b + c = a + (b + c) := by
  simp [add_def, Nat.add_assoc]

theorem add_comm (a b : RunSummary) : a + b = b + a := by
  simp [add_def, Nat.add_comm]

/-- What a topic adds does not depend on the topics before it. -/
theorem record_eq_add (s : RunSummary) (list? : Option RankedList) :
    s.record list? = s + zero.record list? := by
  cases list? <;> simp [record, add_def, zero]

theorem foldl_record (s : RunSummary) (lists : List (Option RankedList)) :
    lists.foldl record s = s + lists.foldl record zero := by
  induction lists generalizing s with
  | nil => rfl
  | cons list? rest ih =>
    calc rest.foldl record (s.record list?)
        = s + zero.record list? + rest.foldl record zero := by rw [ih, record_eq_add]
      _ = s + rest.foldl record (zero.record list?) := by rw [add_assoc, ← ih]

/-- The order of the topics does not matter to a summary. -/
theorem foldl_record_of_perm {lists others : List (Option RankedList)} (h : lists.Perm others)
    (s : RunSummary) : lists.foldl record s = others.foldl record s := by
  apply h.foldl_eq'
  intro list? _ other? _ s
  rw [record_eq_add (s.record list?), record_eq_add s list?, record_eq_add (s.record other?),
    record_eq_add s other?, add_assoc, add_assoc, add_comm (zero.record list?)]

end RunSummary

namespace RunResult

/-- A result with another one behind it. -/
def followedBy (a b : RunResult) : RunResult where
  outcome := do return (← a.outcome) + (← b.outcome)
  output := a.output ++ b.output
  store := b.store

/-- Results one behind the other, of runs that start with the given store. -/
def inTurn (store : HitStore) (parts : List RunResult) : RunResult :=
  parts.foldr followedBy ⟨.ok .zero, "", store⟩

theorem ofRankings_append (tag : String) (store : HitStore)
    (lists others : List (Option RankedList)) :
    ofRankings tag store (lists ++ others) =
      (ofRankings tag store lists).followedBy (ofRankings tag store others) := by
  have hsummary : (lists ++ others).foldl RunSummary.record .zero =
      lists.foldl RunSummary.record .zero + others.foldl RunSummary.record .zero := by
    rw [List.foldl_append, RunSummary.foldl_record]
  have htext : RunFile.text tag ((lists ++ others).filterMap id) =
      RunFile.text tag (lists.filterMap id) ++ RunFile.text tag (others.filterMap id) := by
    rw [List.filterMap_append, RunFile.text_append]
  unfold ofRankings
  rw [hsummary, htext]
  rfl

/-- The result made of rankings is the results made of each of them in turn. -/
theorem ofRankings_eq_inTurn (tag : String) (store : HitStore)
    (lists : List (Option RankedList)) :
    ofRankings tag store lists =
      inTurn store (lists.map fun list? => ofRankings tag store [list?]) := by
  induction lists with
  | nil => rfl
  | cons list? rest ih =>
    have happend := ofRankings_append tag store [list?] rest
    rw [ih] at happend
    exact happend

theorem output_inTurn (store : HitStore) (parts : List RunResult) :
    (inTurn store parts).output = String.join (parts.map (·.output)) := by
  induction parts with
  | nil => rfl
  | cons part rest ih =>
    rw [List.map_cons, String.join_cons, ← ih]
    rfl

end RunResult

/-! ### Runs in turn -/

variable {answer : QueryVariant → Answer} {processor : Processor} {boost : Binary64}
  {decoder : Response.Decoder} {tag : String}

/-- The result of a run from an empty store with one request at a time. -/
def resultOf (answer : QueryVariant → Answer) (processor : Processor) (boost : Binary64)
    (decoder : Response.Decoder) (tag : String) (topics : List Topic) : RunResult :=
  Id.run (run (.ofFunction answer) processor (.new boost decoder) tag topics)

/-- With one request at a time, a run is made of the rankings that its topics
    have by themselves. -/
theorem resultOf_of_succeeds {topics : List Topic}
    (hall : ∀ topic ∈ topics, ∀ v ∈ topic.variants, Succeeds answer decoder v) :
    resultOf answer processor boost decoder tag topics =
      .ofRankings tag (.new boost decoder)
        (topics.map (rankingOf answer processor (.new boost decoder))) := by
  have hrankings : Rankings 1 answer processor (.new boost decoder) topics
      (topics.map (rankingOf answer processor (.new boost decoder))) := by
    unfold Rankings
    rw [List.forall₂_map_right_iff, List.forall₂_same]
    intro topic htopic
    exact (topicEnds_iff_of_single le_rfl).2 (processTopic_eq_rankingOf (hall topic htopic))
  have hends : RunEnds 1 answer processor (.new boost decoder) tag topics _ :=
    (runEnds_iff_of_succeeds hall).2 ⟨_, hrankings, rfl⟩
  exact ((runEnds_iff_of_single le_rfl).1 hends).symm

/-- Rankings of two lists of topics are rankings of the first and rankings of
    the second. -/
theorem rankings_append_iff {threads : Nat} {fresh : HitStore} {xs ys : List Topic}
    {lists : List (Option RankedList)} :
    Rankings threads answer processor fresh (xs ++ ys) lists ↔
      ∃ first second, Rankings threads answer processor fresh xs first ∧
        Rankings threads answer processor fresh ys second ∧ lists = first ++ second := by
  constructor
  · intro h
    induction xs generalizing lists with
    | nil => exact ⟨[], lists, .nil, h, rfl⟩
    | cons topic rest ih =>
      obtain ⟨list?, lists, htopic, hrest, rfl⟩ := List.forall₂_cons_left_iff.1 h
      obtain ⟨first, second, hfirst, hsecond, rfl⟩ := ih hrest
      exact ⟨list? :: first, second, .cons htopic hfirst, hsecond, rfl⟩
  · rintro ⟨first, second, hfirst, hsecond, rfl⟩
    exact List.rel_append hfirst hsecond

/-- The results of a run over two lists of topics are those of the runs over
    each of them, one behind the other. -/
theorem runEnds_append_iff {threads : Nat} {xs ys : List Topic}
    (hall : ∀ topic ∈ xs ++ ys, ∀ v ∈ topic.variants, Succeeds answer decoder v)
    {result : RunResult} :
    RunEnds threads answer processor (.new boost decoder) tag (xs ++ ys) result ↔
      ∃ first second, RunEnds threads answer processor (.new boost decoder) tag xs first ∧
        RunEnds threads answer processor (.new boost decoder) tag ys second ∧
        result = first.followedBy second := by
  have hxs := fun topic htopic => hall topic (List.mem_append_left ys htopic)
  have hys := fun topic htopic => hall topic (List.mem_append_right xs htopic)
  constructor
  · intro h
    obtain ⟨lists, hlists, rfl⟩ := (runEnds_iff_of_succeeds hall).1 h
    obtain ⟨first, second, hfirst, hsecond, rfl⟩ := rankings_append_iff.1 hlists
    exact ⟨_, _, (runEnds_iff_of_succeeds hxs).2 ⟨first, hfirst, rfl⟩,
      (runEnds_iff_of_succeeds hys).2 ⟨second, hsecond, rfl⟩,
      RunResult.ofRankings_append tag _ first second⟩
  · rintro ⟨_, _, hxs_ends, hys_ends, rfl⟩
    obtain ⟨first, hfirst, rfl⟩ := (runEnds_iff_of_succeeds hxs).1 hxs_ends
    obtain ⟨second, hsecond, rfl⟩ := (runEnds_iff_of_succeeds hys).1 hys_ends
    exact (runEnds_iff_of_succeeds hall).2
      ⟨first ++ second, rankings_append_iff.2 ⟨first, second, hfirst, hsecond, rfl⟩,
        (RunResult.ofRankings_append tag _ first second).symm⟩

/-- The results of a run are those of its topics in turn, each run alone. -/
theorem runEnds_iff_inTurn {threads : Nat} {topics : List Topic}
    (hall : ∀ topic ∈ topics, ∀ v ∈ topic.variants, Succeeds answer decoder v)
    {result : RunResult} :
    RunEnds threads answer processor (.new boost decoder) tag topics result ↔
      ∃ parts,
        List.Forall₂ (fun topic part =>
          RunEnds threads answer processor (.new boost decoder) tag [topic] part) topics parts ∧
        result = .inTurn (.new boost decoder) parts := by
  induction topics generalizing result with
  | nil =>
    rw [runEnds_iff_of_succeeds hall]
    simp [Rankings, RunResult.ofRankings, RunResult.inTurn, RunFile.text]
  | cons topic rest ih =>
    have hrest := fun t ht => hall t (List.mem_cons_of_mem topic ht)
    have happend : RunEnds threads answer processor (.new boost decoder) tag ([topic] ++ rest)
        result ↔ _ := runEnds_append_iff hall
    refine happend.trans ?_
    constructor
    · rintro ⟨part, others, hpart, hothers, rfl⟩
      obtain ⟨parts, hparts, rfl⟩ := (ih hrest).1 hothers
      exact ⟨part :: parts, .cons hpart hparts, rfl⟩
    · rintro ⟨_, hall_parts, rfl⟩
      obtain ⟨part, parts, hpart, hparts, rfl⟩ := List.forall₂_cons_left_iff.1 hall_parts
      exact ⟨part, _, hpart, (ih hrest).2 ⟨parts, hparts, rfl⟩, rfl⟩

/-- With one request at a time, the output of a run is the outputs of its topics
    run alone. -/
theorem output_resultOf {topics : List Topic}
    (hall : ∀ topic ∈ topics, ∀ v ∈ topic.variants, Succeeds answer decoder v) :
    (resultOf answer processor boost decoder tag topics).output =
      String.join
        (topics.map fun topic => (resultOf answer processor boost decoder tag [topic]).output) := by
  rw [resultOf_of_succeeds hall, RunResult.ofRankings_eq_inTurn, RunResult.output_inTurn,
    List.map_map, List.map_map]
  apply congrArg
  apply List.map_congr_left
  intro topic htopic
  have halone : ∀ t ∈ [topic], ∀ v ∈ t.variants, Succeeds answer decoder v := by
    simpa using hall topic htopic
  rw [resultOf_of_succeeds halone]
  rfl

/-- A run over two lists of topics is the runs over each of them, one behind the
    other, as long as no request fails.

    With one request at a time, its output is the two outputs joined, and its
    summary is the sum of the two. Every topic adds the lines that it adds when
    it is run alone, so topics in another order give the same summary, and
    their lines in that order.

    With more requests under way, a run has a result, and the results that it
    may have are those of the two runs one behind the other, and those of its
    topics in turn. -/
theorem run_in_turn (threads : Nat) (answer : QueryVariant → Answer) (processor : Processor)
    (boost : Binary64) (decoder : Response.Decoder) (tag : String) {xs ys : List Topic}
    (hall : ∀ topic ∈ xs ++ ys, ∀ v ∈ topic.variants, ¬ Fails answer decoder v) :
    (∃ first second,
      (resultOf answer processor boost decoder tag xs).outcome = .ok first ∧
      (resultOf answer processor boost decoder tag ys).outcome = .ok second ∧
      (resultOf answer processor boost decoder tag (xs ++ ys)).outcome = .ok (first + second)) ∧
    (resultOf answer processor boost decoder tag (xs ++ ys)).output =
      (resultOf answer processor boost decoder tag xs).output ++
        (resultOf answer processor boost decoder tag ys).output ∧
    (∀ zs : List Topic, zs.Perm xs →
      (resultOf answer processor boost decoder tag zs).outcome =
        (resultOf answer processor boost decoder tag xs).outcome ∧
      (resultOf answer processor boost decoder tag zs).output =
        String.join
          (zs.map fun topic => (resultOf answer processor boost decoder tag [topic]).output)) ∧
    (∃ result, RunEnds threads answer processor (.new boost decoder) tag (xs ++ ys) result) ∧
    (∀ result, RunEnds threads answer processor (.new boost decoder) tag (xs ++ ys) result ↔
      ∃ first second, RunEnds threads answer processor (.new boost decoder) tag xs first ∧
        RunEnds threads answer processor (.new boost decoder) tag ys second ∧
        result = first.followedBy second) ∧
    ∀ zs : List Topic, zs.Perm xs → ∀ result,
      RunEnds threads answer processor (.new boost decoder) tag zs result ↔
        ∃ parts,
          List.Forall₂ (fun topic part =>
            RunEnds threads answer processor (.new boost decoder) tag [topic] part) zs parts ∧
          result = .inTurn (.new boost decoder) parts := by
  have hboth : ∀ topic ∈ xs ++ ys, ∀ v ∈ topic.variants, Succeeds answer decoder v :=
    fun topic htopic v hv => not_fails_iff.1 (hall topic htopic v hv)
  have hxs := fun topic htopic => hboth topic (List.mem_append_left ys htopic)
  have hys := fun topic htopic => hboth topic (List.mem_append_right xs htopic)
  have hpermuted : ∀ zs : List Topic, zs.Perm xs →
      ∀ topic ∈ zs, ∀ v ∈ topic.variants, Succeeds answer decoder v :=
    fun zs hzs topic htopic => hxs topic (hzs.mem_iff.1 htopic)
  have happend : resultOf answer processor boost decoder tag (xs ++ ys) =
      (resultOf answer processor boost decoder tag xs).followedBy
        (resultOf answer processor boost decoder tag ys) := by
    rw [resultOf_of_succeeds hboth, resultOf_of_succeeds hxs, resultOf_of_succeeds hys,
      List.map_append, RunResult.ofRankings_append]
  refine ⟨?_, ?_, ?_, ?_, ?_, ?_⟩
  · rw [happend, resultOf_of_succeeds hxs, resultOf_of_succeeds hys]
    exact ⟨_, _, rfl, rfl, rfl⟩
  · rw [happend]
    rfl
  · intro zs hzs
    refine ⟨?_, output_resultOf (hpermuted zs hzs)⟩
    rw [resultOf_of_succeeds (hpermuted zs hzs), resultOf_of_succeeds hxs]
    exact congrArg Except.ok (RunSummary.foldl_record_of_perm (hzs.map _) _)
  · exact exists_runEnds threads processor boost tag hboth
  · exact fun result => runEnds_append_iff hboth
  · exact fun zs hzs result => runEnds_iff_inTurn (hpermuted zs hzs)

/-- A topic comes twice, once in each list, with padding from a seed: its two
    blocks are those of the topic alone. -/
theorem run_in_turn_repeated :
    let answer : QueryVariant → Answer := fun _ => .ok "\x7b\"hits\":[[\"a\",0]]\x7d"
    let processor : Processor := ⟨some ⟨⟨["f", "g"]⟩, 2, .seeded 7⟩, .ofDepth 5⟩
    let topic : Topic := ⟨"T", [⟨"x", ""⟩]⟩
    let result := resultOf answer processor .zero (.ofFormat .flat) "tag"
    (result ([topic] ++ [topic])).output = (result [topic]).output ++ (result [topic]).output := by
  intro answer processor topic result
  have hall : ∀ t ∈ [topic] ++ [topic], ∀ v ∈ t.variants, ¬ Fails answer (.ofFormat .flat) v := by
    intro t ht v hv
    simp only [topic, List.cons_append, List.nil_append, List.mem_cons, List.not_mem_nil,
      or_false, or_self] at ht
    subst ht
    simp only [List.mem_cons, List.not_mem_nil, or_false] at hv
    subst hv
    exact not_fails_iff.2 ⟨_, rfl⟩
  exact (run_in_turn 1 answer processor .zero (.ofFormat .flat) "tag" hall).2.1

end EvalRun.Pipeline
