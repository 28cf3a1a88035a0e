import EvalRun.Proofs.Pipeline.Stateful
import EvalRun.Proofs.Ranking.Processing
import EvalRun.Proofs.RunFile.Table
import EvalRun.Proofs.Topics.Joining

/-! # Proofs.RunFile.Uniqueness — no topic, document or rank twice

    A run file is searched by topic and document, and by topic and rank. So no
    such pair may occur twice in the whole file, whatever the topic file
    repeats, the backend returns and the filler pool holds.

    * **Within a topic.** A ranking has every document and every rank once.
    * **Between topics.** Topics of one id have been joined, so no two rankings
      are of one id.
-/

namespace EvalRun

namespace RunFile

/-- The rows are those of a run over topics with the given ids, which may
    repeat. -/
structure IsRun (ids : List String) (rows : List (String × RankedEntry)) : Prop where
  /-- Every row is one of a topic. -/
  topic_mem : ∀ row ∈ rows, row.1 ∈ ids
  /-- The topics follow one another in the order in which their ids first
      occur. -/
  ordered : rows.Pairwise fun a b => ids.idxOf a.1 ≤ ids.idxOf b.1
  /-- The rows of a topic stand together: what stands between two of them is
      one of them. -/
  contiguous : ∀ a b c, [a, b, c].Sublist rows → a.1 = c.1 → b.1 = a.1
  /-- No topic has a document twice. -/
  nodup_doc : (rows.map fun row => (row.1, row.2.doc)).Nodup
  /-- No topic has a rank twice. -/
  nodup_rank : (rows.map fun row => (row.1, row.2.rank)).Nodup
  /-- The ranks of every topic count up from one. -/
  ranks : ∀ id, (rows.filter fun row => row.1 = id).map (·.2.rank) =
    List.range' 1 (rows.filter fun row => row.1 = id).length

/-! ### Rows of rankings -/

theorem rows_cons (list : RankedList) (rest : List RankedList) :
    rows (list :: rest) = list.entries.map (fun e => (list.topic, e)) ++ rows rest := by
  simp [rows]

/-- The topics of rows stand as the topics of the rankings do. -/
theorem pairwise_rows {R : String → String → Prop} (hrefl : ∀ topic, R topic topic)
    {lists : List RankedList} (h : (lists.map (·.topic)).Pairwise R) :
    (rows lists).Pairwise fun a b => R a.1 b.1 := by
  induction lists with
  | nil => exact .nil
  | cons list rest ih =>
    rw [List.map_cons, List.pairwise_cons] at h
    rw [rows_cons, List.pairwise_append]
    refine ⟨?_, ih h.2, ?_⟩
    · rw [List.pairwise_map]
      exact List.pairwise_of_forall fun _ _ => hrefl list.topic
    · intro a ha b hb
      obtain ⟨e, -, rfl⟩ := List.mem_map.1 ha
      obtain ⟨other, hother, -, hb⟩ := mem_rows.1 hb
      rw [hb]
      exact h.1 other.topic (List.mem_map_of_mem hother)

/-- What no ranking has twice, no topic has twice. -/
theorem nodup_rows {β : Type} (f : RankedEntry → β) {lists : List RankedList}
    (htopics : (lists.map (·.topic)).Nodup)
    (hlists : ∀ list ∈ lists, (list.entries.map f).Nodup) :
    ((rows lists).map fun row => (row.1, f row.2)).Nodup := by
  induction lists with
  | nil => simp [rows]
  | cons list rest ih =>
    rw [List.map_cons, List.nodup_cons] at htopics
    rw [rows_cons, List.map_append, List.nodup_append]
    have hrest := ih htopics.2 fun other hother => hlists other (List.mem_cons_of_mem list hother)
    refine ⟨?_, hrest, ?_⟩
    · have hlist := (hlists list List.mem_cons_self).map (Prod.mk_right_injective list.topic)
      simpa [Function.comp_def] using hlist
    · -- a row of another ranking is of another topic
      rintro a ha b hb rfl
      obtain ⟨row, hrow, rfl⟩ := List.mem_map.1 ha
      obtain ⟨e, -, rfl⟩ := List.mem_map.1 hrow
      obtain ⟨row, hrow, heq⟩ := List.mem_map.1 hb
      obtain ⟨other, hother, -, htopic⟩ := mem_rows.1 hrow
      have hsame : row.1 = list.topic := congrArg Prod.fst heq
      apply htopics.1
      rw [← hsame, htopic]
      exact List.mem_map_of_mem hother

/-- The rows of a topic are those of its ranking. -/
theorem map_rank_filter_rows {lists : List RankedList} (htopics : (lists.map (·.topic)).Nodup)
    (hranks : ∀ list ∈ lists,
      list.entries.map (·.rank) = List.range' 1 list.entries.length) (id : String) :
    ((rows lists).filter fun row => row.1 = id).map (·.2.rank) =
      List.range' 1 ((rows lists).filter fun row => row.1 = id).length := by
  induction lists with
  | nil => rfl
  | cons list rest ih =>
    rw [List.map_cons, List.nodup_cons] at htopics
    rw [rows_cons, List.filter_append]
    by_cases hid : list.topic = id
    · have hnone : (rows rest).filter (fun row => row.1 = id) = [] := by
        rw [List.filter_eq_nil_iff]
        intro row hrow hsame
        obtain ⟨other, hother, -, htopic⟩ := mem_rows.1 hrow
        apply htopics.1
        rw [hid, ← of_decide_eq_true hsame, htopic]
        exact List.mem_map_of_mem hother
      have hlist := hranks list List.mem_cons_self
      simp [hnone, hid, List.filter_map, Function.comp_def, hlist]
    · have hother : (list.entries.map fun e => (list.topic, e)).filter (fun row => row.1 = id) =
          [] := by
        simp [List.filter_map, Function.comp_def, hid]
      rw [hother, List.nil_append]
      exact ih htopics.2 fun other hmem => hranks other (List.mem_cons_of_mem list hmem)

/-- Rankings of different topics, in the order in which their ids first occur,
    have the rows of a run. -/
theorem isRun_rows {ids : List String} {lists : List RankedList}
    (htopics : (lists.map (·.topic)).Sublist ids.eraseDups)
    (hdocs : ∀ list ∈ lists, (list.entries.map (·.doc)).Nodup)
    (hranks : ∀ list ∈ lists,
      list.entries.map (·.rank) = List.range' 1 list.entries.length) :
    IsRun ids (rows lists) := by
  have hnodup : (lists.map (·.topic)).Nodup := htopics.nodup (nodup_eraseDups ids)
  have hmem : ∀ row ∈ rows lists, row.1 ∈ ids := by
    intro row hrow
    obtain ⟨list, hlist, -, htopic⟩ := mem_rows.1 hrow
    rw [htopic]
    exact List.mem_eraseDups.1 (htopics.mem (List.mem_map_of_mem hlist))
  have hordered : (rows lists).Pairwise fun a b => ids.idxOf a.1 ≤ ids.idxOf b.1 := by
    apply pairwise_rows (R := fun a b => ids.idxOf a ≤ ids.idxOf b) fun _ => le_rfl
    exact ((Topics.pairwise_idxOf_eraseDups ids).sublist htopics).imp Nat.le_of_lt
  exact {
    topic_mem := hmem
    ordered := hordered
    contiguous := by
      intro a b c hsublist hsame
      have hbetween := hordered.sublist hsublist
      simp only [List.pairwise_cons, List.mem_cons, List.not_mem_nil, or_false, forall_eq_or_imp,
        forall_eq] at hbetween
      obtain ⟨⟨hab, -⟩, hbc, -⟩ := hbetween
      rw [← hsame] at hbc
      -- the id of the row between occurs first where that of the others does
      have hb : b.1 ∈ ids := hmem b (hsublist.mem (by simp))
      exact (List.idxOf_inj hb).1 (le_antisymm hbc hab)
    nodup_doc := nodup_rows (·.doc) hnodup hdocs
    nodup_rank := by
      apply nodup_rows (·.rank) hnodup
      intro list hlist
      rw [hranks list hlist]
      exact List.nodup_range'
    ranks := map_rank_filter_rows hnodup hranks }

end RunFile

namespace Pipeline

variable {σ : Type}

/-! ### Rows of a run -/

/-- The rankings that topics have are rankings of these topics, in their
    order. -/
theorem Makes.sublist {processor : Processor} {topics : List Topic}
    {lists : List (Option RankedList)} (h : Makes processor topics lists) :
    ((lists.filterMap id).map (·.topic)).Sublist (topics.map (·.id)) ∧
      ∀ list ∈ lists.filterMap id, ∃ topic hits, processor.IsRanking topic hits list := by
  unfold Makes at h
  induction h with
  | nil => exact ⟨.slnil, by simp⟩
  | @cons topic list? topics lists hmade _ ih =>
    obtain ⟨s, hmade⟩ := hmade
    cases list? with
    | none => exact ⟨ih.1.cons _, ih.2⟩
    | some list =>
      obtain ⟨hits, -, hranking⟩ := Processor.exists_isRanking_of_process hmade.symm
      refine ⟨?_, ?_⟩
      · have hcons : (some list :: lists).filterMap id = list :: lists.filterMap id := rfl
        rw [hcons, List.map_cons, List.map_cons, hranking.topic_eq]
        exact ih.1.cons_cons topic.id
      · intro other hother
        rcases List.mem_cons.1 hother with rfl | hother
        · exact ⟨topic.id, hits, hranking⟩
        · exact ih.2 other hother

/-- The rows of rankings that topics have by ids that do not repeat are those of
    a run. -/
theorem Makes.isRun {processor : Processor} {ids : List String} {topics : List Topic}
    (hids : topics.map (·.id) = ids.eraseDups) {lists : List (Option RankedList)}
    (h : Makes processor topics lists) :
    RunFile.IsRun ids (RunFile.rows (lists.filterMap id)) := by
  obtain ⟨htopics, hrankings⟩ := h.sublist
  rw [hids] at htopics
  apply RunFile.isRun_rows htopics
  · intro list hlist
    obtain ⟨topic, hits, hranking⟩ := hrankings list hlist
    exact hranking.nodup_doc
  · intro list hlist
    obtain ⟨topic, hits, hranking⟩ := hrankings list hlist
    exact hranking.ranks

/-- No topic, document or rank is written twice.

    Raw topics, with ids that may repeat, are expanded and joined, and a run
    over them has a backend of any kind none of whose requests fails. Then it
    has a result, and with one request at a time what `run` computes is one.
    Every result that it may have is a summary, and the lines written are the
    rows of rankings that the processor makes for the topics. These rows are as
    `IsRun` describes them: topic after topic in the order in which the ids
    first occur among the raw topics, no document and no rank twice in a topic,
    and the ranks of a topic counted up from one. -/
theorem run_isRun {σ : Type} (threads : Nat) (backend : Backend (StateM σ))
    (processor : Processor) (boost : Binary64) (decoder : Response.Decoder) (tag : String)
    (policy : Topics.VariantPolicy) (raws : List Topics.RawTopic)
    (hall : ∀ topic ∈ (Topics.Source.ofRaw policy raws).topics, ∀ v ∈ topic.variants, ∀ x,
      ¬ Fails (backend.answerIn x) decoder v) (x : σ) :
    (∃ result, RunEndsOver threads backend processor (.new boost decoder) tag
      (Topics.Source.ofRaw policy raws).topics result) ∧
    (threads ≤ 1 → RunEndsOver threads backend processor (.new boost decoder) tag
      (Topics.Source.ofRaw policy raws).topics
      ((run backend processor (.new boost decoder) tag
        (Topics.Source.ofRaw policy raws).topics).run x).1) ∧
    ∀ result, RunEndsOver threads backend processor (.new boost decoder) tag
        (Topics.Source.ofRaw policy raws).topics result →
      ∃ summary lists,
        Makes processor (Topics.Source.ofRaw policy raws).topics lists ∧
        result.outcome = .ok summary ∧
        summary.rowsWritten = (RunFile.rows (lists.filterMap id)).length ∧
        result.output = RunFile.lines ((RunFile.rows (lists.filterMap id)).map fun row =>
          row.2.row row.1 tag) ∧
        RunFile.IsRun (raws.map (·.id)) (RunFile.rows (lists.filterMap id)) := by
  refine ⟨?_, ?_, ?_⟩
  · exact exists_runEndsOver threads backend processor boost tag
      (fun topic htopic v hv y => not_fails_iff.1 (hall topic htopic v hv y)) x
  · exact fun hsingle => runEndsOver_run hsingle backend processor _ tag _ x
  · rintro _ ⟨outcome, last, hends, rfl⟩
    obtain ⟨done, rest, lists, htopics, hmakes, hsummary, houtput, hend⟩ :=
      exists_lists_of_topicsEnd hends
    rcases hend with ⟨rfl, rfl⟩ | ⟨topic, htopic, v, hv, y, hfails⟩
    · rw [List.append_nil] at htopics
      subst htopics
      refine ⟨last.summary, lists, hmakes, rfl, ?_, ?_,
        hmakes.isRun (Topics.Source.map_id_ofRaw policy raws)⟩
      · rw [hsummary]
        exact RunFile.rowsWritten_eq_length lists
      · rw [← RunFile.text_eq_lines]
        simpa [Progress.start] using houtput
    · -- a request that fails was ruled out
      have hmem : topic ∈ (Topics.Source.ofRaw policy raws).topics := by
        rw [htopics]
        exact List.mem_append_right done htopic
      exact absurd hfails (hall topic hmem v hv y)

/-- An id that occurs twice with another one between, and a backend that counts
    its requests and returns a document that the pool has too: the topic has
    one block, and the document is in it once. -/
theorem run_isRun_repeated :
    let backend : Backend (StateM Nat) := ⟨fun _ asked =>
      (.ok (if asked = 0 then "[]" else "\x7b\"hits\":[[\"a\",0]]\x7d"), asked + 1)⟩
    let processor : Processor := ⟨some ⟨⟨["a", "f", "f"]⟩, 3, .seeded 7⟩, .ofDepth 5⟩
    let raws : List Topics.RawTopic := [⟨"T", ["x"], []⟩, ⟨"S", ["y"], []⟩, ⟨"T", ["z"], []⟩]
    ∃ rows, RunFile.IsRun ["T", "S", "T"] rows ∧
      ((run backend processor (.new .zero (.ofFormat .flat)) "tag"
        (Topics.Source.ofRaw .ntcir raws).topics).run 0).1.output =
        RunFile.lines (rows.map fun row => row.2.row row.1 "tag") := by
  intro backend processor raws
  have hall : ∀ topic ∈ (Topics.Source.ofRaw .ntcir raws).topics, ∀ v ∈ topic.variants, ∀ x,
      ¬ Fails (backend.answerIn x) (.ofFormat .flat) v := by
    intro topic _ v _ x
    rw [not_fails_iff]
    by_cases hx : x = 0
    · subst hx
      exact ⟨_, rfl⟩
    · have hanswer : backend.answerIn x v = .ok "\x7b\"hits\":[[\"a\",0]]\x7d" :=
        congrArg Except.ok (if_neg hx)
      unfold Succeeds outcome
      rw [hanswer]
      exact ⟨_, rfl⟩
  obtain ⟨-, hrun, hends⟩ := run_isRun 1 backend processor .zero (.ofFormat .flat) "tag" .ntcir raws
    hall 0
  obtain ⟨summary, lists, -, -, -, houtput, hisRun⟩ := hends _ (hrun le_rfl)
  exact ⟨_, hisRun, houtput⟩

end Pipeline

end EvalRun
