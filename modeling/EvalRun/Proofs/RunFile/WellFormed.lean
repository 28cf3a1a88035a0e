import EvalRun.Config.Build
import EvalRun.Proofs.Pipeline.Transcript
import EvalRun.Proofs.RunFile.Table

/-! # Proofs.RunFile.WellFormed — when a run file is well formed

    Three kinds of text come into a run file from outside: the tag, the ids of
    the topics, and the ids of documents, which responses and the filler file
    give. An accepted configuration has a tag that can stand in a cell. Nothing
    is asked of the ids, so a run file is a table if and only if those that
    come into it happen to hold no tab and no line feed
    (`isTable_output_iff`). That is so over a backend of any kind, whatever it
    answers in its states. A response with a tab in an id is enough to break
    the file (`not_isTable_output`).
-/

namespace EvalRun

open RunFile (IsCell IsTable)

/-! ### The tag -/

theorem RunConfig.validate_eq_ok_iff {c : RunConfig} :
    c.validate = .ok () ↔ c.violations = [] := by
  unfold validate
  cases c.violations <;> simp

/-- The tag of an accepted configuration can stand in a cell. -/
theorem RunConfig.isCell_runTag {c : RunConfig} (h : c.validate = .ok ()) : IsCell c.runTag := by
  have hnone : c.violations = [] := validate_eq_ok_iff.1 h
  have hbreaks : c.runTag.toList.any breaksRow = false := by
    rw [violations, List.filterMap_eq_nil_iff] at hnone
    have hbroken := hnone (c.runTag.toList.any breaksRow, .brokenRunTag) (by simp)
    simpa using hbroken
  rw [List.any_eq_false] at hbreaks
  exact ⟨fun htab => hbreaks _ htab rfl, fun hfeed => hbreaks _ hfeed rfl⟩

namespace Pipeline

/-! ### The rows -/

section Rows

variable {σ : Type} {backend : Backend (StateM σ)} {processor : Processor} {threads : Nat}
  {boost : Binary64} {decoder : Response.Decoder} {tag : String}

/-- A document may be ranked for a topic: a request of the topic returns it in
    some state of the backend, or the filler pool has it. -/
def MayRank (backend : Backend (StateM σ)) (decoder : Response.Decoder) (processor : Processor)
    (topic : Topic) (doc : String) : Prop :=
  (∃ v ∈ topic.variants, ∃ x batch, outcome (backend.answerIn x) decoder v = .ok batch ∧
    doc ∈ batch.map (·.doc)) ∨
  ∃ padder, processor.padder = some padder ∧ doc ∈ padder.pool.ids

/-- What requests offer are documents that they return, each in some state. -/
theorem exists_of_mem_offersFound {variants : List QueryVariant} {states : List σ}
    {doc : String} {score : Binary64}
    (h : (doc, score) ∈ offersFound backend boost decoder variants states) :
    ∃ v ∈ variants, ∃ x batch, outcome (backend.answerIn x) decoder v = .ok batch ∧
      doc ∈ batch.map (·.doc) := by
  obtain ⟨i, v, x, hv, -, hoffer⟩ := mem_flatten_zipWith.1 h
  have hdoc : doc ∈ ((outcome (backend.answerIn x) decoder v).toOption.getD []).map (·.doc) := by
    rw [← map_fst_requestOffers _ boost]
    exact List.mem_map_of_mem hoffer
  cases houtcome : outcome (backend.answerIn x) decoder v with
  | error fault =>
    -- a request that goes wrong offers nothing
    rw [houtcome] at hdoc
    cases hdoc
  | ok batch =>
    rw [houtcome] at hdoc
    exact ⟨v, List.mem_of_getElem? hv, x, batch, houtcome, hdoc⟩

/-- The ranking of a topic ranks documents that may be ranked for it. -/
theorem TopicFinds.mayRank {topic : Topic} {states : List σ} {list : RankedList}
    {store : HitStore}
    (h : TopicFinds threads backend processor (.new boost decoder) topic states (some list)
      store) :
    list.topic = topic.id ∧
      ∀ e ∈ list.entries, MayRank backend decoder processor topic e.doc := by
  obtain ⟨hits, hkeeps, hranking⟩ := h.exists_isRanking
  refine ⟨hranking.topic_eq, ?_⟩
  intro e he
  cases horigin : e.origin with
  | retrieved =>
    have hoffered := hkeeps.mem_of_get? e.doc e.score (hranking.retrieved e he horigin)
    exact .inl (exists_of_mem_offersFound hoffered)
  | filler =>
    obtain ⟨-, -, padder, hpadder, hid⟩ := hranking.filler e he horigin
    exact .inr ⟨padder, hpadder, hid⟩

/-- Every row has the id of a topic and a document that may be ranked for that
    topic. -/
theorem RunFinds.mayRank {topics : List Topic} {runs : List (TopicRun σ)} {result : RunResult}
    (h : RunFinds threads backend processor (.new boost decoder) tag topics runs result)
    {row : String × RankedEntry}
    (hrow : row ∈ RunFile.rows ((runs.map (·.list?)).filterMap id)) :
    ∃ topic ∈ topics, row.1 = topic.id ∧ MayRank backend decoder processor topic row.2.doc := by
  obtain ⟨list, hlist, he, htopic⟩ := RunFile.mem_rows.1 hrow
  obtain ⟨r, hr, hranked⟩ : ∃ r ∈ runs, r.list? = some list := by
    simpa using hlist
  have hfinds := h.topic_finds r hr
  rw [hranked] at hfinds
  obtain ⟨hid, hdocs⟩ := hfinds.mayRank
  refine ⟨r.topic, ?_, htopic.trans hid, hdocs row.2 he⟩
  rw [← h.topics_eq]
  exact List.mem_map_of_mem hr

end Rows

/-! ### The file -/

/-- When the run file of an accepted configuration is well formed, if no request
    fails in any state of the backend.

    The run does have a result, and with one request at a time what `run`
    computes is one. Every result that it may have is a summary that counts the
    rows written. Every row has the id of a topic and a document that may be
    ranked for it. The file is a table of that many rows, with six cells each,
    if and only if no such text among the rows holds a tab or a line feed; then
    its cells are the columns of the rows. That is so if no id of a topic and
    no document that may be ranked holds one. -/
theorem isTable_output_iff {σ : Type} (c : RunConfig) (backend : Backend (StateM σ))
    (processor : Processor) (topics : List Topic) (hvalid : c.validate = .ok ())
    (hall : ∀ topic ∈ topics, ∀ v ∈ topic.variants, ∀ x,
      ¬ Fails (backend.answerIn x) (.ofFormat c.responseFormat) v) (x : σ) :
    (∃ result,
      RunEndsOver c.variantThreads backend processor c.newStore c.runTag topics result) ∧
    (c.variantThreads ≤ 1 →
      RunEndsOver c.variantThreads backend processor c.newStore c.runTag topics
        ((run backend processor c.newStore c.runTag topics).run x).1) ∧
    ∀ result, RunEndsOver c.variantThreads backend processor c.newStore c.runTag topics result →
      ∃ (summary : RunSummary) (table : List (String × RankedEntry)),
        result.outcome = .ok summary ∧ summary.rowsWritten = table.length ∧
        result.output = RunFile.lines (table.map fun row => row.2.row row.1 c.runTag) ∧
        (∀ row ∈ table, ∃ topic ∈ topics, row.1 = topic.id ∧
          MayRank backend (.ofFormat c.responseFormat) processor topic row.2.doc) ∧
        (IsTable summary.rowsWritten result.output ↔
          ∀ row ∈ table, IsCell row.1 ∧ IsCell row.2.doc) ∧
        (IsTable summary.rowsWritten result.output →
          RunFile.cells result.output = table.map fun row => row.2.columns row.1 c.runTag) ∧
        ((∀ topic ∈ topics, IsCell topic.id ∧
            ∀ doc, MayRank backend (.ofFormat c.responseFormat) processor topic doc →
              IsCell doc) →
          IsTable summary.rowsWritten result.output) := by
  have htag := RunConfig.isCell_runTag hvalid
  refine ⟨?_, fun hsingle => runEndsOver_run hsingle backend processor _ c.runTag topics x, ?_⟩
  · exact exists_runEndsOver c.variantThreads backend processor c.formulaBoost c.runTag
      (fun topic htopic v hv y => not_fails_iff.1 (hall topic htopic v hv y)) x
  intro result hresult
  obtain ⟨runs, hfinds⟩ := (runEndsOver_iff_exists_runs hall).1 hresult
  obtain rfl := hfinds.result_eq
  have hrows : ∀ row ∈ RunFile.rows ((runs.map (·.list?)).filterMap id), ∃ topic ∈ topics,
      row.1 = topic.id ∧ MayRank backend (.ofFormat c.responseFormat) processor topic row.2.doc :=
    fun row hrow => hfinds.mayRank hrow
  -- what the requests found is in the rankings now, and the rest is about these
  generalize runs.map (·.list?) = lists at hrows ⊢
  have hcount := RunFile.rowsWritten_eq_length lists
  have htext := RunFile.text_eq_lines c.runTag (lists.filterMap id)
  have htable : IsTable (RunFile.rows (lists.filterMap id)).length
        (RunFile.text c.runTag (lists.filterMap id)) ↔
      ∀ row ∈ RunFile.rows (lists.filterMap id), IsCell row.1 ∧ IsCell row.2.doc := by
    rw [htext]
    exact RunFile.isTable_lines_iff htag
  refine ⟨_, RunFile.rows (lists.filterMap id), rfl, hcount, htext, hrows, ?_, ?_, ?_⟩
  · rw [hcount]
    exact htable
  · rw [hcount]
    intro h
    have hcells := htable.1 h
    calc RunFile.cells (RunFile.text c.runTag (lists.filterMap id))
        = RunFile.cells (RunFile.lines ((RunFile.rows (lists.filterMap id)).map fun row =>
            row.2.row row.1 c.runTag)) := by rw [htext]
      _ = _ := RunFile.cells_lines htag hcells
  · rw [hcount]
    intro hinput
    apply htable.2
    intro row hrow
    obtain ⟨topic, htopic, hid, hdoc⟩ := hrows row hrow
    obtain ⟨hid_cell, hdoc_cell⟩ := hinput topic htopic
    exact ⟨hid ▸ hid_cell, hdoc_cell row.2.doc hdoc⟩

/-- Two requests of a topic, several of them under way at once, and a filler. The
    backend counts its requests and returns a document from the second one on.
    In whatever states the requests find it, the file is a table. -/
theorem isTable_output_padded :
    let c : RunConfig := { profile := .wiki, variantThreads := 4 }
    let backend : Backend (StateM Nat) := ⟨fun _ asked =>
      (.ok (if asked = 0 then "\x7b\"hits\":[]\x7d" else "\x7b\"hits\":[[\"a\",0]]\x7d"),
        asked + 1)⟩
    let processor : Processor := ⟨some ⟨⟨["f"]⟩, 2, .seeded 7⟩, .ofDepth 5⟩
    let topics : List Topic := [⟨"T", [⟨"x", ""⟩, ⟨"y", ""⟩]⟩]
    (∃ result,
      RunEndsOver c.variantThreads backend processor c.newStore c.runTag topics result) ∧
    ∀ result, RunEndsOver c.variantThreads backend processor c.newStore c.runTag topics result →
      ∃ summary, result.outcome = .ok summary ∧ IsTable summary.rowsWritten result.output := by
  intro c backend processor topics
  have houtcome (v : QueryVariant) (x : Nat) : ∃ batch,
      outcome (backend.answerIn x) (.ofFormat c.responseFormat) v = .ok batch ∧
        (batch.map (·.doc) = [] ∨ batch.map (·.doc) = ["a"]) := by
    -- in the state zero the response has no hits
    by_cases hx : x = 0
    · subst hx
      exact ⟨_, rfl, .inl rfl⟩
    · have hanswer : backend.answerIn x v = .ok "\x7b\"hits\":[[\"a\",0]]\x7d" :=
        congrArg Except.ok (if_neg hx)
      rw [outcome, hanswer]
      exact ⟨_, rfl, .inr rfl⟩
  have hall : ∀ topic ∈ topics, ∀ v ∈ topic.variants, ∀ x,
      ¬ Fails (backend.answerIn x) (.ofFormat c.responseFormat) v := by
    intro _ _ v _ x
    obtain ⟨batch, hbatch, -⟩ := houtcome v x
    exact not_fails_iff.2 ⟨batch, hbatch⟩
  obtain ⟨hexists, -, hends⟩ := isTable_output_iff c backend processor topics
    (RunConfig.validate_eq_ok_iff.2 (by decide)) hall 0
  refine ⟨hexists, ?_⟩
  intro result hresult
  obtain ⟨summary, table, hsummary, -, -, -, -, -, htable⟩ := hends result hresult
  refine ⟨summary, hsummary, htable ?_⟩
  intro topic htopic
  obtain rfl : topic = ⟨"T", [⟨"x", ""⟩, ⟨"y", ""⟩]⟩ := List.mem_singleton.1 htopic
  refine ⟨by decide, ?_⟩
  rintro doc (⟨v, -, x, batch, hbatch, hdoc⟩ | ⟨padder, hpadder, hdoc⟩)
  · obtain ⟨batch', hbatch', hdocs⟩ := houtcome v x
    rw [hbatch', Except.ok.injEq] at hbatch
    rw [← hbatch] at hdoc
    rcases hdocs with hdocs | hdocs
    · rw [hdocs] at hdoc
      cases hdoc
    · rw [hdocs] at hdoc
      obtain rfl : doc = "a" := List.mem_singleton.1 hdoc
      decide
  · obtain rfl := Option.some.inj hpadder
    obtain rfl : doc = "f" := List.mem_singleton.1 hdoc
    decide

/-- A response holds a tab in the id of a document, and nobody refuses it: the
    configuration is accepted, the topics are read, the response is decoded,
    and the one row that is written has seven cells. -/
theorem not_isTable_output :
    let c : RunConfig := { profile := .wiki }
    let xml : String := "<topics><t><num>T</num><query><formula><math><semantics><apply/>" ++
      "</semantics></math></formula></query></t></topics>"
    let answer : QueryVariant → Answer := fun _ => .ok "\x7b\"hits\":[[\"a\\tb\",0]]\x7d"
    let processor : Processor := ⟨none, .ofDepth c.scoring.maxDepth⟩
    ∃ source summary,
      c.validate = .ok () ∧
      Topics.Source.parse c.profile.variantPolicy xml = .ok source ∧
      (∀ fs drawnSeed, c.processor fs drawnSeed = .ok processor) ∧
      (∀ topic ∈ source.topics, ∀ v ∈ topic.variants,
        ¬ Fails answer (.ofFormat c.responseFormat) v) ∧
      (Id.run (run (.ofFunction answer) processor c.newStore c.runTag source.topics)).outcome =
        .ok summary ∧
      ¬ IsTable summary.rowsWritten
        (Id.run (run (.ofFunction answer) processor c.newStore c.runTag source.topics)).output := by
  intro c xml answer processor
  have hparse : Topics.Source.parse c.profile.variantPolicy xml =
      .ok ⟨[⟨"T", [⟨"", "<apply/>"⟩]⟩]⟩ := by
    have hread : (Topics.Source.parse c.profile.variantPolicy xml).toOption =
        some ⟨[⟨"T", [⟨"", "<apply/>"⟩]⟩]⟩ := by
      decide +kernel
    cases hsource : Topics.Source.parse c.profile.variantPolicy xml with
    | error fault =>
      rw [hsource] at hread
      cases hread
    | ok source =>
      rw [hsource] at hread
      exact congrArg Except.ok (Option.some.inj hread)
  have houtput : (Id.run (run (.ofFunction answer) processor c.newStore c.runTag
      [⟨"T", [⟨"", "<apply/>"⟩]⟩])).output = "T\t1\ta\tb\t1\t0.0\tKWARC_default\n" := by
    decide +kernel
  have hall : ∀ topic ∈ [(⟨"T", [⟨"", "<apply/>"⟩]⟩ : Topic)], ∀ v ∈ topic.variants,
      Succeeds answer (.ofFormat c.responseFormat) v :=
    fun _ _ _ _ => ⟨_, rfl⟩
  have hends : RunEnds 1 answer processor c.newStore c.runTag [⟨"T", [⟨"", "<apply/>"⟩]⟩] _ :=
    (runEnds_iff_of_single le_rfl).2 rfl
  obtain ⟨lists, -, hresult⟩ := (runEnds_iff_of_succeeds hall).1 hends
  refine ⟨⟨[⟨"T", [⟨"", "<apply/>"⟩]⟩]⟩, _, RunConfig.validate_eq_ok_iff.2 (by decide), hparse,
    fun _ _ => rfl, fun topic htopic v hv => not_fails_iff.2 (hall topic htopic v hv),
    congrArg RunResult.outcome hresult, ?_⟩
  rw [houtput]
  intro h
  have hwidth := h.width_eq ["T", "1", "a", "b", "1", "0.0", "KWARC_default"] (by decide)
  cases hwidth

end Pipeline

end EvalRun
