import EvalRun.Proofs.Pipeline.Independence
import EvalRun.Proofs.Pipeline.Transcript
import EvalRun.Proofs.RunFile.WellFormed
import Mathlib.Algebra.Ring.Nat

/-! # Proofs.Pipeline.Summary — what the counters of a run count

    A run counts as it goes along, by what padding and ranking tell it. What
    the numbers mean is decided before: by the hits that the requests of each
    topic return.

    * **One topic.** Its documents decide whether it has a ranking, how many
      rows that has, and whether the pool ran out (`TopicFinds.spec`). A depth
      of one at least makes sure that no ranking is without rows.
    * **Runs.** So the summary is a function of the sets of documents of the
      topics (`RunSummary.ofDocuments`). Neither the number of requests under
      way nor the order of the variants is seen in it.
-/

namespace EvalRun

/-! ### One topic -/

namespace Processor

/-- Padding is on, and documents and the ids of the pool that are none of them
    do not reach its target. -/
def fallsShort (p : Processor) (docs : Finset String) : Bool :=
  match p.padder with
  | none => false
  | some padder => docs.card + (padder.pool.ids.toFinset \ docs).card < padder.target

/-- The number of rows of a topic with these documents. Without documents it has
    none, not even fillers. -/
def rowCount (p : Processor) (docs : Finset String) : Nat :=
  if docs = ∅ then 0
  else
    match p.padder with
    | none => min p.ranker.maxDepth docs.card
    | some padder =>
      min p.ranker.maxDepth
        (max docs.card (min padder.target (docs.card + (padder.pool.ids.toFinset \ docs).card)))

@[simp] theorem rowCount_empty (p : Processor) : p.rowCount ∅ = 0 := rfl

theorem rowCount_pos {p : Processor} (hdepth : 0 < p.ranker.maxDepth) {docs : Finset String}
    (hdocs : docs ≠ ∅) : 0 < p.rowCount docs := by
  have hcard : 0 < docs.card := Finset.card_pos.2 (Finset.nonempty_iff_ne_empty.2 hdocs)
  rw [rowCount, if_neg hdocs]
  split
  · exact Nat.lt_min.2 ⟨hdepth, hcard⟩
  · exact Nat.lt_min.2 ⟨hdepth, Nat.lt_of_lt_of_le hcard (Nat.le_max_left ..)⟩

end Processor

namespace TopicHits

/-- The documents of the map are these. -/
def HasDocuments (hits : TopicHits) (docs : Finset String) : Prop :=
  ∀ doc, hits.contains doc = true ↔ doc ∈ docs

namespace HasDocuments

variable {hits : TopicHits} {docs : Finset String}

theorem size_eq (h : hits.HasDocuments docs) : hits.size = docs.card := by
  have hdocs : (hits.entries.map (·.1)).toFinset = docs := by
    ext doc
    rw [List.mem_toFinset, ← h doc, ← mem_map_doc_rows, map_doc_rows]
  rw [← hdocs, List.toFinset_card_of_nodup hits.nodup_keys, List.length_map, OrderedMap.size]

theorem isEmpty_iff (h : hits.HasDocuments docs) : hits.isEmpty = true ↔ docs = ∅ := by
  rw [← Finset.card_eq_zero, ← h.size_eq, OrderedMap.isEmpty, OrderedMap.size,
    List.isEmpty_iff, List.length_eq_zero_iff]

theorem freshCount_eq (h : hits.HasDocuments docs) (pool : FillerPool) :
    pool.freshCount hits = (pool.ids.toFinset \ docs).card := by
  unfold FillerPool.freshCount
  congr 1
  ext id
  rw [Finset.mem_filter, Finset.mem_sdiff, ← h id, Bool.not_eq_true]

end HasDocuments

end TopicHits

namespace Processor.IsRanking

variable {p : Processor} {topic : String} {hits : TopicHits} {docs : Finset String}
  {list : RankedList}

/-- The documents decide how many rows a ranking has. -/
theorem length_eq_rowCount (hranking : p.IsRanking topic hits list)
    (h : hits.HasDocuments docs) (hdocs : docs ≠ ∅) :
    list.entries.length = p.rowCount docs := by
  rw [hranking.length_eq, paddedSize, rowCount, if_neg hdocs]
  cases p.padder with
  | none => rw [h.size_eq]
  | some padder =>
    simp only [h.size_eq, h.freshCount_eq]
    split <;> omega

/-- And whether the pool ran out. -/
theorem exhausted_eq_fallsShort (hranking : p.IsRanking topic hits list)
    (h : hits.HasDocuments docs) : list.paddingExhausted = p.fallsShort docs := by
  rw [Bool.eq_iff_iff, hranking.exhausted_iff, RunsShort, fallsShort]
  cases p.padder with
  | none => simp
  | some padder => simp [h.size_eq, h.freshCount_eq]

end Processor.IsRanking

namespace Pipeline

variable {σ : Type} {backend : Backend (StateM σ)} {processor : Processor} {threads : Nat}
  {boost : Binary64} {decoder : Response.Decoder} {tag : String}

namespace TopicRun

/-- No request of the topic returns a hit, if it has requests at all. -/
def retrievesNothing (backend : Backend (StateM σ)) (decoder : Response.Decoder)
    (r : TopicRun σ) : Bool :=
  (hitsFound backend decoder r.topic.variants r.states).all (·.isEmpty)

/-- The documents that the requests of the topic return. -/
def documents (backend : Backend (StateM σ)) (decoder : Response.Decoder) (r : TopicRun σ) :
    Finset String :=
  ((hitsFound backend decoder r.topic.variants r.states).flatten.map (·.doc)).toFinset

/-- The rows of the topic. -/
def rows (r : TopicRun σ) : List RankedEntry := (r.list?.map (·.entries)).getD []

/-- The lines that the rows of the topic make. -/
def text (tag : String) (r : TopicRun σ) : String :=
  RunFile.lines (r.rows.map fun e => e.row r.topic.id tag)

theorem retrievesNothing_iff {r : TopicRun σ} :
    r.retrievesNothing backend decoder = true ↔ r.documents backend decoder = ∅ := by
  rw [retrievesNothing, documents, List.toFinset_eq_empty_iff, List.map_eq_nil_iff,
    List.flatten_eq_nil_iff]
  simp

theorem mem_documents {r : TopicRun σ} {doc : String} :
    doc ∈ r.documents backend decoder ↔
      ∃ score, (doc, score) ∈
        offersFound backend boost decoder r.topic.variants r.states := by
  rw [documents, List.mem_toFinset, ← map_fst_offersFound boost, List.mem_map]
  simp

end TopicRun

/-- A topic has a ranking if and only if its requests return documents, and
    these decide how many rows it has and whether the pool ran out. -/
theorem TopicFinds.spec {r : TopicRun σ} {store : HitStore}
    (h : TopicFinds threads backend processor (.new boost decoder) r.topic r.states r.list?
      store) :
    (r.list? = none ↔ r.documents backend decoder = ∅) ∧
      ∀ list, r.list? = some list →
        list.topic = r.topic.id ∧
        list.entries.length = processor.rowCount (r.documents backend decoder) ∧
        list.paddingExhausted = processor.fallsShort (r.documents backend decoder) := by
  obtain ⟨-, s, hs, hlist⟩ := h.exists_collects
  have hdocs : TopicHits.HasDocuments ((s.hits? r.topic.id).getD .empty)
      (r.documents backend decoder) := by
    intro doc
    rw [hs.keeps_getD.contains_iff, TopicRun.mem_documents]
  have hnone : r.list? = none ↔ r.documents backend decoder = ∅ := by
    have hprocess : (processor.process s r.topic.id).1 =
        (s.hits? r.topic.id).bind (processor.rankHits r.topic.id) := rfl
    rw [hlist, hprocess, ← hdocs.isEmpty_iff]
    cases s.hits? r.topic.id with
    | none => simp [OrderedMap.isEmpty, OrderedMap.empty]
    | some hits => simp [Processor.rankHits]
  refine ⟨hnone, ?_⟩
  intro list hsome
  have hne : r.documents backend decoder ≠ ∅ := by
    rw [ne_eq, ← hnone, hsome]
    exact Option.some_ne_none list
  rw [hsome] at h
  obtain ⟨hits, hkeeps, hranking⟩ := h.exists_isRanking
  have hdocs : hits.HasDocuments (r.documents backend decoder) := by
    intro doc
    rw [hkeeps.contains_iff, TopicRun.mem_documents]
  exact ⟨hranking.topic_eq, hranking.length_eq_rowCount hdocs hne,
    hranking.exhausted_eq_fallsShort hdocs⟩

/-- The number of rows of a topic is decided by its documents. -/
theorem TopicFinds.length_rows {r : TopicRun σ} {store : HitStore}
    (h : TopicFinds threads backend processor (.new boost decoder) r.topic r.states r.list?
      store) : r.rows.length = processor.rowCount (r.documents backend decoder) := by
  obtain ⟨hnone, hsome⟩ := h.spec
  cases hlist : r.list? with
  | none =>
    rw [hnone.1 hlist, TopicRun.rows, hlist]
    rfl
  | some list =>
    rw [← (hsome list hlist).2.1, TopicRun.rows, hlist]
    rfl

/-- With a depth of one at least, the topics with documents are those with
    rows. -/
theorem TopicFinds.isEmpty_rows_iff {r : TopicRun σ} {store : HitStore}
    (hdepth : 0 < processor.ranker.maxDepth)
    (h : TopicFinds threads backend processor (.new boost decoder) r.topic r.states r.list?
      store) : r.rows.isEmpty = true ↔ r.documents backend decoder = ∅ := by
  rw [List.isEmpty_iff, ← List.length_eq_zero_iff, h.length_rows]
  constructor
  · intro hzero
    by_contra hne
    exact (Processor.rowCount_pos hdepth hne).ne' hzero
  · intro hempty
    rw [hempty, Processor.rowCount_empty]

/-! ### The summary -/

namespace RunSummary

/-- The summary of a run whose topics retrieve these documents. -/
def ofDocuments (p : Processor) (docs : List (Finset String)) : RunSummary where
  topicsSeen := docs.length
  topicsWritten := docs.countP (· ≠ ∅)
  topicsDropped := docs.countP (· = ∅)
  rowsWritten := (docs.map p.rowCount).sum
  topicsShort := docs.countP fun d => d ≠ ∅ && p.fallsShort d

theorem ofDocuments_cons (p : Processor) (d : Finset String) (docs : List (Finset String)) :
    ofDocuments p (d :: docs) = ofDocuments p [d] + ofDocuments p docs := by
  simp [ofDocuments, add_def, List.countP_cons, Nat.add_comm]

/-- What a summary says about the topics of a run, each of them going as it
    did. -/
structure Tells (summary : RunSummary) (processor : Processor) (backend : Backend (StateM σ))
    (decoder : Response.Decoder) (runs : List (TopicRun σ)) : Prop where
  /-- All topics are counted. -/
  topicsSeen_eq : summary.topicsSeen = runs.length
  /-- The topics dropped are those that retrieve nothing. -/
  topicsDropped_eq :
    summary.topicsDropped = runs.countP fun r => r.retrievesNothing backend decoder
  /-- The topics written are all others. -/
  written_add_dropped : summary.topicsWritten + summary.topicsDropped = summary.topicsSeen
  /-- They are those with a row at least. -/
  topicsWritten_eq : summary.topicsWritten = runs.countP fun r => !r.rows.isEmpty
  /-- All rows are counted. -/
  rowsWritten_eq : summary.rowsWritten = (runs.map fun r => r.rows.length).sum
  /-- The short topics are those of the topics written for which documents and
      fillers do not reach the target. -/
  topicsShort_eq : summary.topicsShort =
    runs.countP fun r => !r.rows.isEmpty && processor.fallsShort (r.documents backend decoder)

end RunSummary

/-- What a topic adds to a summary is decided by its documents. -/
theorem TopicFinds.record_eq_ofDocuments {r : TopicRun σ} {store : HitStore}
    (h : TopicFinds threads backend processor (.new boost decoder) r.topic r.states r.list?
      store) :
    RunSummary.zero.record r.list? = .ofDocuments processor [r.documents backend decoder] := by
  obtain ⟨hnone, hsome⟩ := h.spec
  cases hlist : r.list? with
  | none =>
    rw [hnone.1 hlist]
    rfl
  | some list =>
    have hne : r.documents backend decoder ≠ ∅ := by
      rw [ne_eq, ← hnone, hlist]
      exact Option.some_ne_none list
    obtain ⟨-, hlength, hshort⟩ := hsome list hlist
    simp [RunSummary.record, RunSummary.zero, RunSummary.ofDocuments, RankedList.size, hlength,
      hshort, hne, List.countP_cons]

namespace RunFinds

variable {topics : List Topic} {runs : List (TopicRun σ)} {result : RunResult}

/-- The documents of its topics decide the summary of a run. -/
theorem outcome_eq (h : RunFinds threads backend processor (.new boost decoder) tag topics runs
      result) :
    result.outcome = .ok (.ofDocuments processor (runs.map (·.documents backend decoder))) := by
  rw [h.result_eq]
  apply congrArg Except.ok
  have hfinds := h.topic_finds
  clear h
  induction runs with
  | nil => rfl
  | cons r rest ih =>
    obtain ⟨hr, hrest⟩ := List.forall_mem_cons.1 hfinds
    calc (r.list? :: rest.map (·.list?)).foldl RunSummary.record .zero
        = RunSummary.zero.record r.list? + (rest.map (·.list?)).foldl RunSummary.record .zero := by
          rw [List.foldl_cons, RunSummary.foldl_record]
      _ = .ofDocuments processor ((r :: rest).map (·.documents backend decoder)) := by
          rw [ih hrest, hr.record_eq_ofDocuments, List.map_cons, ← RunSummary.ofDocuments_cons]

/-- The summary tells what the topics of the run come to. -/
theorem tells (hdepth : 0 < processor.ranker.maxDepth)
    (h : RunFinds threads backend processor (.new boost decoder) tag topics runs result) :
    (RunSummary.ofDocuments processor (runs.map (·.documents backend decoder))).Tells processor
      backend decoder runs := by
  have hrows : ∀ r ∈ runs, (!r.rows.isEmpty) = decide (r.documents backend decoder ≠ ∅) := by
    intro r hr
    rw [Bool.eq_iff_iff, Bool.not_eq_true', ← Bool.not_eq_true,
      (h.topic_finds r hr).isEmpty_rows_iff hdepth, decide_eq_true_iff]
  exact {
    topicsSeen_eq := List.length_map ..
    topicsDropped_eq := by
      refine List.countP_map.trans (List.countP_congr fun r _ => ?_)
      simp [TopicRun.retrievesNothing_iff]
    written_add_dropped := by
      have hsplit := List.length_eq_countP_add_countP (fun d : Finset String => d = ∅)
        (l := runs.map (·.documents backend decoder))
      simp only [decide_eq_true_eq] at hsplit
      exact (Nat.add_comm ..).trans hsplit.symm
    topicsWritten_eq := by
      refine List.countP_map.trans (List.countP_congr fun r hr => ?_)
      rw [hrows r hr]
      rfl
    rowsWritten_eq := by
      refine congrArg List.sum ((List.map_map ..).trans (List.map_congr_left fun r hr => ?_))
      exact (h.topic_finds r hr).length_rows.symm
    topicsShort_eq := by
      refine List.countP_map.trans (List.countP_congr fun r hr => ?_)
      rw [hrows r hr]
      rfl }

/-- The output holds the rows of the topics, topic after topic. -/
theorem output_eq (h : RunFinds threads backend processor (.new boost decoder) tag topics runs
      result) : result.output = String.join (runs.map (·.text tag)) := by
  have hfinds := h.topic_finds
  have htext : RunFile.text tag ((runs.map (·.list?)).filterMap id) =
      String.join (runs.map (·.text tag)) := by
    clear h
    induction runs with
    | nil => rfl
    | cons r rest ih =>
      obtain ⟨hr, hrest⟩ := List.forall_mem_cons.1 hfinds
      rw [List.map_cons, List.map_cons, String.join_cons, ← ih hrest]
      cases hlist : r.list? with
      | none => simp [TopicRun.text, TopicRun.rows, hlist, RunFile.lines]
      | some list =>
        have hblock : RunFile.block tag list = r.text tag := by
          simp [TopicRun.text, TopicRun.rows, hlist, RunFile.block, (hr.spec.2 list hlist).1]
        rw [← hblock]
        exact RunFile.text_cons tag list _
  rw [h.result_eq]
  exact htext

end RunFinds

/-! ### Backends that answer by the request alone -/

/-- With such a backend, more requests retrieve more documents, in whatever
    states they find it. -/
theorem TopicRun.documents_subset (hsame : ∀ x y v, backend.answerIn x v = backend.answerIn y v)
    {r r' : TopicRun σ} (hsub : r.topic.variants ⊆ r'.topic.variants)
    (hlength : r'.states.length = r'.topic.variants.length) :
    r.documents backend decoder ⊆ r'.documents backend decoder := by
  intro doc hdoc
  rw [documents, List.mem_toFinset, List.mem_map] at hdoc ⊢
  obtain ⟨hit, hhit, rfl⟩ := hdoc
  refine ⟨hit, ?_, rfl⟩
  rw [hitsFound, mem_flatten_zipWith] at hhit ⊢
  obtain ⟨i, v, x, hv, -, hhit⟩ := hhit
  obtain ⟨j, hj⟩ := List.mem_iff_getElem?.1 (hsub (List.mem_of_getElem? hv))
  obtain ⟨hbound, -⟩ := List.getElem?_eq_some_iff.1 hj
  refine ⟨j, v, r'.states[j], hj, List.getElem?_eq_getElem (hlength ▸ hbound), ?_⟩
  have houtcome : outcome (backend.answerIn r'.states[j]) decoder v =
      outcome (backend.answerIn x) decoder v := by
    rw [outcome, outcome, hsame _ x v]
  rw [houtcome]
  exact hhit

/-- So the order of its requests does not matter to a topic. -/
theorem TopicFinds.documents_eq {threads' : Nat}
    (hsame : ∀ x y v, backend.answerIn x v = backend.answerIn y v) {r r' : TopicRun σ}
    {s s' store store' : HitStore}
    (h : TopicFinds threads backend processor s r.topic r.states r.list? store)
    (h' : TopicFinds threads' backend processor s' r'.topic r'.states r'.list? store')
    (hperm : r.topic.variants.Perm r'.topic.variants) :
    r.documents backend decoder = r'.documents backend decoder :=
  (TopicRun.documents_subset hsame hperm.subset h'.length_states).antisymm
    (TopicRun.documents_subset hsame hperm.symm.subset h.length_states)

/-- What holds of all variants holds of them in another order. -/
theorem forall_variants_of_perm {P : QueryVariant → Prop} {topics topics' : List Topic}
    (hperm : List.Forall₂ (fun t t' => t.variants.Perm t'.variants) topics topics')
    (hall : ∀ topic ∈ topics, ∀ v ∈ topic.variants, P v) :
    ∀ topic ∈ topics', ∀ v ∈ topic.variants, P v := by
  induction hperm with
  | nil => exact hall
  | cons htopic _ ih =>
    obtain ⟨hhead, htail⟩ := List.forall_mem_cons.1 hall
    exact List.forall_mem_cons.2 ⟨fun v hv => hhead v (htopic.mem_iff.2 hv), ih htail⟩

/-- Nor to a run. -/
theorem RunFinds.outcome_eq_of_perm {threads' : Nat} {fresh : HitStore}
    (hfresh : fresh = .new boost decoder)
    (hsame : ∀ x y v, backend.answerIn x v = backend.answerIn y v)
    {topics topics' : List Topic} {runs runs' : List (TopicRun σ)} {result result' : RunResult}
    (h : RunFinds threads backend processor fresh tag topics runs result)
    (h' : RunFinds threads' backend processor fresh tag topics' runs' result')
    (hperm : List.Forall₂ (fun t t' => t.variants.Perm t'.variants) topics topics') :
    result.outcome = result'.outcome := by
  subst hfresh
  have hdocuments : runs.map (·.documents backend decoder) =
      runs'.map (·.documents backend decoder) := by
    rw [← h.topics_eq, ← h'.topics_eq, List.forall₂_map_left_iff,
      List.forall₂_map_right_iff] at hperm
    have hfinds := h.topic_finds
    have hfinds' := h'.topic_finds
    clear h h'
    induction hperm with
    | nil => rfl
    | cons hr _ ih =>
      obtain ⟨hhead, htail⟩ := List.forall_mem_cons.1 hfinds
      obtain ⟨hhead', htail'⟩ := List.forall_mem_cons.1 hfinds'
      rw [List.map_cons, List.map_cons, hhead.documents_eq hsame hhead' hr, ih htail htail']
  rw [h.outcome_eq, h'.outcome_eq, hdocuments]

end Pipeline

/-! ### Configurations -/

/-- Padding and ranking are as configured. -/
theorem RunConfig.processor_spec {c : RunConfig} {fs : FileSystem} {drawnSeed : UInt64}
    {processor : Processor} (h : c.processor fs drawnSeed = .ok processor) :
    processor.ranker = .ofDepth c.scoring.maxDepth ∧
      processor.padder.isSome = c.paddingEnabled ∧
      ∀ padder, processor.padder = some padder → padder.target = c.padding.target ∧
        FillerPool.load fs c.padding.fillerPath = .ok padder.pool := by
  unfold RunConfig.processor at h
  cases hpadding : c.paddingEnabled with
  | false =>
    rw [hpadding] at h
    obtain rfl := Except.ok.inj h
    exact ⟨rfl, rfl, nofun⟩
  | true =>
    cases hpool : FillerPool.load fs c.padding.fillerPath with
    | error fault => simp [hpadding, hpool] at h
    | ok pool =>
      simp only [hpadding, hpool, if_true] at h
      obtain rfl := Except.ok.inj h
      refine ⟨rfl, rfl, ?_⟩
      rintro padder ⟨⟩
      exact ⟨rfl, rfl⟩

/-- An accepted configuration has a depth of one at least. -/
theorem RunConfig.maxDepth_pos {c : RunConfig} (h : c.validate = .ok ()) :
    0 < c.scoring.maxDepth := by
  have hnone : c.violations = [] := validate_eq_ok_iff.1 h
  rw [violations, List.filterMap_eq_nil_iff] at hnone
  have hzero := hnone (c.scoring.maxDepth = 0, .zeroDepth) (by simp)
  exact Nat.pos_of_ne_zero (by simpa using hzero)

namespace Pipeline

variable {σ : Type}

/-- The summary of a run tells the truth, if no request fails in any state of
    the backend. Padding and ranking are those of an accepted configuration.

    A run has a result, and the results that it may have are those of its
    transcripts. With one request at a time, the requests of all topics find
    one state of the backend after the other.

    Whatever its transcript, a run ends with a summary, whose numbers are those
    of the topics, of the topics that retrieve nothing, of the topics with
    rows, of the rows, and of the topics with rows whose documents and fillers
    do not reach the target. These rows are what is written.

    Runs that retrieve the same documents have the same summary, however many
    requests are under way and whatever the order of the variants. A backend
    that answers by the request alone gives the same documents in any order. -/
theorem run_tells (c : RunConfig) (fs : FileSystem) (drawnSeed : UInt64) {processor : Processor}
    (backend : Backend (StateM σ)) (topics : List Topic) (hvalid : c.validate = .ok ())
    (hprocessor : c.processor fs drawnSeed = .ok processor)
    (hall : ∀ topic ∈ topics, ∀ v ∈ topic.variants, ∀ x,
      ¬ Fails (backend.answerIn x) (.ofFormat c.responseFormat) v) :
    (processor.padder.isSome = c.paddingEnabled ∧
      ∀ padder, processor.padder = some padder → padder.target = c.padding.target ∧
        FillerPool.load fs c.padding.fillerPath = .ok padder.pool) ∧
    (∀ (threads : Nat) (_ : σ), ∃ result,
      RunEndsOver threads backend processor c.newStore c.runTag topics result) ∧
    (∀ threads result,
      RunEndsOver threads backend processor c.newStore c.runTag topics result ↔
        ∃ runs, RunFinds threads backend processor c.newStore c.runTag topics runs result) ∧
    (∀ x, ∃ runs,
      RunFinds 1 backend processor c.newStore c.runTag topics runs
        ((run backend processor c.newStore c.runTag topics).run x).1 ∧
      runs.flatMap (·.states) = statesFrom backend x (topics.flatMap (·.variants))) ∧
    (∀ threads runs result,
      RunFinds threads backend processor c.newStore c.runTag topics runs result →
        ∃ summary : RunSummary, result.outcome = .ok summary ∧
          summary.topicsSeen = topics.length ∧
          summary.Tells processor backend (.ofFormat c.responseFormat) runs ∧
          result.output = String.join (runs.map (·.text c.runTag))) ∧
    (∀ threads threads' topics' runs runs' result result',
      RunFinds threads backend processor c.newStore c.runTag topics runs result →
      RunFinds threads' backend processor c.newStore c.runTag topics' runs' result' →
      runs.map (·.documents backend (.ofFormat c.responseFormat)) =
        runs'.map (·.documents backend (.ofFormat c.responseFormat)) →
      result.outcome = result'.outcome) ∧
    ((∀ x y v, backend.answerIn x v = backend.answerIn y v) →
      ∀ threads threads' topics' result result',
        List.Forall₂ (fun t t' => t.variants.Perm t'.variants) topics topics' →
        RunEndsOver threads backend processor c.newStore c.runTag topics result →
        RunEndsOver threads' backend processor c.newStore c.runTag topics' result' →
        result.outcome = result'.outcome) := by
  obtain ⟨hranker, hpadder⟩ := RunConfig.processor_spec hprocessor
  have hdepth : 0 < processor.ranker.maxDepth := by
    rw [hranker]
    exact Nat.lt_min.2 ⟨RunConfig.maxDepth_pos hvalid, by decide⟩
  have hresults (threads : Nat) (result : RunResult) :
      RunEndsOver threads backend processor c.newStore c.runTag topics result ↔
        ∃ runs, RunFinds threads backend processor c.newStore c.runTag topics runs result :=
    runEndsOver_iff_exists_runs hall
  refine ⟨hpadder, ?_, hresults, ?_, ?_, ?_, ?_⟩
  · intro threads x
    exact exists_runEndsOver threads backend processor c.formulaBoost c.runTag
      (fun topic htopic v hv y => not_fails_iff.1 (hall topic htopic v hv y)) x
  · intro x
    have hsucceed : SucceedFrom backend (.ofFormat c.responseFormat) x
        (topics.flatMap (·.variants)) := by
      apply succeedFrom_of_forall
      intro v hv
      obtain ⟨topic, htopic, hv⟩ := List.mem_flatMap.1 hv
      exact hall topic htopic v hv
    obtain ⟨hstates, hfinds⟩ := runFinds_runsFrom le_rfl hsucceed
    exact ⟨_, hfinds, hstates⟩
  · intro threads runs result hfinds
    refine ⟨_, hfinds.outcome_eq, ?_, hfinds.tells hdepth, hfinds.output_eq⟩
    rw [(hfinds.tells hdepth).topicsSeen_eq, ← hfinds.topics_eq, List.length_map]
  · intro threads threads' topics' runs runs' result result' hfinds hfinds' hdocuments
    rw [hfinds.outcome_eq, hfinds'.outcome_eq]
    exact congrArg (Except.ok ∘ RunSummary.ofDocuments processor) hdocuments
  · intro hsame threads threads' topics' result result' hperm hends hends'
    obtain ⟨runs, hfinds⟩ := (hresults threads result).1 hends
    obtain ⟨runs', hfinds'⟩ :=
      (runEndsOver_iff_exists_runs (forall_variants_of_perm hperm hall)).1 hends'
    exact hfinds.outcome_eq_of_perm rfl hsame hfinds' hperm

/-- Three topics, padded up to three rows from a pool of two ids, one of which
    is a document: the first topic stays short, the second one has no requests,
    and the last one has a request that returns nothing. The backend counts its
    requests. -/
theorem run_tells_short :
    let c : RunConfig :=
      { profile := .wiki, padding := { enabled? := some true, target := 3, fillerPath := "f" } }
    let fs := (FileSystem.ofWorkingDir ["w"]).install "f" (.file "a\np\np\n".toUTF8)
    let backend : Backend (StateM Nat) :=
      ⟨fun variant asked => (.ok (if variant.keywords = "" then "\x7b\"hits\":[]\x7d"
        else "\x7b\"hits\":[[\"a\",0]]\x7d"), asked + 1)⟩
    let topics : List Topic := [⟨"T", [⟨"x", ""⟩, ⟨"y", ""⟩]⟩, ⟨"U", []⟩, ⟨"V", [⟨"", "z"⟩]⟩]
    ∃ processor, c.processor fs 7 = .ok processor ∧
      (∃ result, RunEndsOver 4 backend processor c.newStore c.runTag topics result) ∧
      ∀ result, RunEndsOver 4 backend processor c.newStore c.runTag topics result →
        result.outcome.toOption = some ⟨3, 1, 2, 2, 1⟩ := by
  intro c fs backend topics
  have hpool : FillerPool.load fs "f" = .ok ⟨["a", "p", "p"]⟩ := by
    have hread : (FillerPool.load fs "f").toOption = some ⟨["a", "p", "p"]⟩ := by
      decide +kernel
    cases hload : FillerPool.load fs "f" with
    | error fault =>
      rw [hload] at hread
      cases hread
    | ok pool =>
      rw [hload] at hread
      exact congrArg Except.ok (Option.some.inj hread)
  have hprocessor : c.processor fs 7 =
      .ok ⟨some ⟨⟨["a", "p", "p"]⟩, 3, .unseeded (topicGenerator 7)⟩, .ofDepth 1000⟩ := by
    have hpath : c.padding.fillerPath = "f" := rfl
    rw [RunConfig.processor, hpath, hpool]
    rfl
  have hsucceeds (v : QueryVariant) (x : Nat) :
      ¬ Fails (backend.answerIn x) (.ofFormat c.responseFormat) v := by
    have hanswer : backend.answerIn x v = .ok "\x7b\"hits\":[]\x7d" ∨
        backend.answerIn x v = .ok "\x7b\"hits\":[[\"a\",0]]\x7d" := by
      simp only [backend, Backend.answerIn]
      exact (ite_eq_or_eq ..).imp (congrArg Except.ok) (congrArg Except.ok)
    apply not_fails_iff.2
    rcases hanswer with hanswer | hanswer
    · rw [Succeeds, outcome, hanswer]
      exact ⟨_, rfl⟩
    · rw [Succeeds, outcome, hanswer]
      exact ⟨_, rfl⟩
  obtain ⟨-, hexists, -, -, -, -, hsame⟩ := run_tells c fs 7 backend topics
    (RunConfig.validate_eq_ok_iff.2 (by decide)) hprocessor fun _ _ v _ => hsucceeds v
  refine ⟨_, hprocessor, hexists 4 0, ?_⟩
  intro result hends
  have houtcome := hsame (fun _ _ _ => rfl) 4 1 topics result _
    (List.forall₂_same.2 fun _ _ => .rfl) hends
    (runEndsOver_run le_rfl backend _ c.newStore c.runTag topics 0)
  -- the order of the pool is not drawn: the documents decide
  obtain ⟨-, hfinds⟩ := runFinds_runsFrom le_rfl (succeedFrom_of_forall fun v _ => hsucceeds v)
  rw [houtcome.trans hfinds.outcome_eq]
  decide +kernel

end Pipeline

end EvalRun
