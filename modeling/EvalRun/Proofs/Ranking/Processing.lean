import EvalRun.Proofs.Ranking.Padding
import EvalRun.Proofs.Ranking.Ranker
import EvalRun.Ranking.Processor

/-! # Proofs.Ranking.Processing — the shape of every ranking

    The ranking of a topic is described by four numbers: the documents of its
    map, the fresh ids of the pool, the padding target and the greatest depth.
    They decide how many rows there are and both flags (`IsRanking`).

    * **Padding.** Before ranking, the rows of a topic are its documents
      followed by distinct fresh ids, as many as the numbers say
      (`exists_padded_rows`). Here the order of the pool drops out.
    * **Ranking.** Documents and fresh ids are all distinct, so sorting puts
      them strictly in order, and what was cut off comes after what was kept.
-/

namespace EvalRun

/-! ### How many rows there are -/

/-- The number of different ids of a pool that are no documents of a topic. -/
def FillerPool.freshCount (pool : FillerPool) (hits : TopicHits) : Nat :=
  (pool.ids.toFinset.filter fun id => hits.contains id = false).card

namespace Processor

/-- The number of rows of a topic after padding and before cutting. -/
def paddedSize (p : Processor) (hits : TopicHits) : Nat :=
  match p.padder with
  | none => hits.size
  | some padder =>
    if padder.target ≤ hits.size then hits.size
    else min padder.target (hits.size + padder.pool.freshCount hits)

/-- Padding is on, and documents and fresh ids together do not reach its
    target. -/
def RunsShort (p : Processor) (hits : TopicHits) : Prop :=
  ∃ padder, p.padder = some padder ∧ hits.size + padder.pool.freshCount hits < padder.target

/-- The list is the ranking of a topic's map: it has the rows that the map and
    the pool admit, the right number of them, and they stand in order. -/
structure IsRanking (p : Processor) (topic : String) (hits : TopicHits) (list : RankedList) :
    Prop where
  /-- The ranking is that of the topic. -/
  topic_eq : list.topic = topic
  /-- All padded rows are there, down to the greatest depth. -/
  length_eq : list.entries.length = min p.ranker.maxDepth (p.paddedSize hits)
  /-- The list says whether rows were cut off. -/
  truncated_iff : list.truncated = true ↔ p.ranker.maxDepth < p.paddedSize hits
  /-- The list says whether the pool ran out. -/
  exhausted_iff : list.paddingExhausted = true ↔ p.RunsShort hits
  /-- No document is ranked twice. -/
  nodup_doc : (list.entries.map (·.doc)).Nodup
  /-- A retrieved document stands there with its score. -/
  retrieved : ∀ e ∈ list.entries, e.origin = .retrieved → hits.get? e.doc = some e.score
  /-- A filler has no score, and its id is one of the pool and no document of
      the topic. -/
  filler : ∀ e ∈ list.entries, e.origin = .filler →
    e.score = .zero ∧ hits.contains e.doc = false ∧
      ∃ padder, p.padder = some padder ∧ e.doc ∈ padder.pool.ids
  /-- Every row stands strictly before the rows behind it. -/
  ordered : list.entries.Pairwise fun a b => RankedEntry.order a b = .lt
  /-- The ranks count up from one. -/
  ranks : list.entries.map (·.rank) = List.range' 1 list.entries.length
  /-- A document that is not ranked would come after every row. -/
  missing : ∀ doc score, hits.get? doc = some score → doc ∉ list.entries.map (·.doc) →
    ∀ e ∈ list.entries, RankedEntry.order e (.ofRetrieved doc score) = .lt

end Processor

/-! ### Rows before ranking -/

namespace TopicHits

@[simp] theorem length_rows (hits : TopicHits) : hits.rows.length = hits.size := by
  simp [rows, OrderedMap.size]

theorem map_doc_rows (hits : TopicHits) : hits.rows.map (·.doc) = hits.entries.map (·.1) := by
  simp [rows, RankedEntry.ofRetrieved, Function.comp_def]

/-- The documents of a topic are distinct. -/
theorem nodup_doc_rows (hits : TopicHits) : (hits.rows.map (·.doc)).Nodup := by
  rw [map_doc_rows]
  exact hits.nodup_keys

theorem mem_rows {hits : TopicHits} {row : RankedEntry} :
    row ∈ hits.rows ↔ ∃ doc score, hits.get? doc = some score ∧ row = .ofRetrieved doc score := by
  simp only [rows, List.mem_map, Prod.exists, OrderedMap.mem_entries, eq_comm]

theorem mem_map_doc_rows {hits : TopicHits} {doc : String} :
    doc ∈ hits.rows.map (·.doc) ↔ hits.contains doc = true := by
  rw [map_doc_rows, OrderedMap.contains_iff]
  simp [OrderedMap.mem_entries]

end TopicHits

namespace Processor

/-- The rows of a topic before ranking are its documents and fresh ids behind
    them, as many as the sizes say. -/
theorem exists_padded_rows (p : Processor) (topic : String) (hits : TopicHits) :
    ∃ fillers : List String,
      (p.padded topic hits.rows).1 = hits.rows ++ fillers.map RankedEntry.ofFiller ∧
      ((p.padded topic hits.rows).2 = true ↔ p.RunsShort hits) ∧
      hits.size + fillers.length = p.paddedSize hits ∧
      ∀ id ∈ fillers, hits.contains id = false ∧
        ∃ padder, p.padder = some padder ∧ id ∈ padder.pool.ids := by
  cases hp : p.padder with
  | none => exact ⟨[], by simp [padded, RunsShort, paddedSize, hp]⟩
  | some padder =>
    have hreserved (id : String) :
        id ∉ hits.rows.map (·.doc) ↔ hits.contains id = false := by
      rw [TopicHits.mem_map_doc_rows, Bool.not_eq_true]
    have hcount : (freshIds (hits.rows.map (·.doc)) (padder.orderFor topic)).length
        = padder.pool.freshCount hits := by
      rw [length_freshIds (padder.orderFor_perm topic), FillerPool.freshCount]
      simp only [hreserved]
    refine ⟨(freshIds (hits.rows.map (·.doc)) (padder.orderFor topic)).take
      (padder.target - hits.size), ?_, ?_, ?_, ?_⟩
    · simp [padded, hp, Padder.pad_eq, padWithOrder_rows]
    · simp only [padded, hp, Padder.pad_eq, padWithOrder_exhausted, hcount,
        TopicHits.length_rows, RunsShort, Option.some.injEq, exists_eq_left']
    · rw [List.length_take, hcount]
      simp only [paddedSize, hp]
      split <;> omega
    · intro id hid
      have hfresh := mem_freshIds.1 (List.mem_of_mem_take hid)
      exact ⟨(hreserved id).1 hfresh.2, padder, rfl,
        (padder.orderFor_perm topic).mem_iff.1 hfresh.1⟩

/-- The padded rows of a topic have distinct ids. -/
theorem nodup_doc_padded (p : Processor) (topic : String) (hits : TopicHits) :
    ((p.padded topic hits.rows).1.map (·.doc)).Nodup := by
  unfold padded
  cases p.padder with
  | none => exact hits.nodup_doc_rows
  | some padder =>
    simp only [Padder.pad_eq]
    exact nodup_doc_padWithOrder padder.target (padder.orderFor topic) hits.nodup_doc_rows

/-! ### Rankings -/

/-- A map with documents is ranked by padding its rows first. -/
theorem rankHits_eq_rank (p : Processor) (topic : String) {hits : TopicHits}
    (hne : hits.isEmpty = false) :
    p.rankHits topic hits
      = some (p.ranker.rank topic (p.padded topic hits.rows).1 (p.padded topic hits.rows).2) := by
  simp [rankHits, hne]

/-- Ranking the map of a topic gives its ranking. -/
theorem isRanking_rankHits {p : Processor} {topic : String} {hits : TopicHits}
    (hne : hits.isEmpty = false) :
    ∃ list, p.rankHits topic hits = some list ∧ p.IsRanking topic hits list := by
  obtain ⟨fillers, hrows, hshort, hsize, hfresh⟩ := p.exists_padded_rows topic hits
  have hlength : (p.padded topic hits.rows).1.length = p.paddedSize hits := by
    simp [hrows, hsize]
  have hdistinct := p.nodup_doc_padded topic hits
  have hmem (row : RankedEntry) (h : row ∈ (p.padded topic hits.rows).1) :
      (∃ doc score, hits.get? doc = some score ∧ row = .ofRetrieved doc score) ∨
        ∃ id ∈ fillers, row = .ofFiller id := by
    rw [hrows, List.mem_append, TopicHits.mem_rows, List.mem_map] at h
    simpa only [eq_comm] using h
  refine ⟨_, p.rankHits_eq_rank topic hne, ?_⟩
  exact {
    topic_eq := rfl
    length_eq := by rw [Ranker.length_rank, hlength]
    truncated_iff := by rw [Ranker.truncated_rank, hlength]
    exhausted_iff := hshort
    nodup_doc := Ranker.nodup_doc_rank hdistinct
    retrieved := by
      intro e he horigin
      obtain ⟨row, hrow, heq⟩ := Ranker.exists_of_mem_rank he
      rw [heq] at horigin ⊢
      rcases hmem row hrow with ⟨doc, score, hget, rfl⟩ | ⟨id, -, rfl⟩
      · exact hget
      · cases horigin
    filler := by
      intro e he horigin
      obtain ⟨row, hrow, heq⟩ := Ranker.exists_of_mem_rank he
      rw [heq] at horigin ⊢
      rcases hmem row hrow with ⟨doc, score, -, rfl⟩ | ⟨id, hid, rfl⟩
      · cases horigin
      · exact ⟨rfl, hfresh id hid⟩
    ordered := Ranker.pairwise_rank hdistinct
    ranks := Ranker.map_rank_rank
    missing := by
      intro doc score hget habsent e he
      have hrow : RankedEntry.ofRetrieved doc score ∈ (p.padded topic hits.rows).1 := by
        rw [hrows]
        exact List.mem_append_left _ (TopicHits.mem_rows.2 ⟨doc, score, hget, rfl⟩)
      exact Ranker.order_eq_lt_of_not_mem_rank hdistinct hrow habsent he }

/-- What processing a topic gives is the ranking of a map, the one that the
    store holds for the topic. -/
theorem exists_isRanking_of_process {p : Processor} {s : HitStore} {topic : String}
    {list : RankedList} (h : (p.process s topic).1 = some list) :
    ∃ hits, s.hits? topic = some hits ∧ p.IsRanking topic hits list := by
  have hprocess : (s.hits? topic).bind (p.rankHits topic) = some list := h
  obtain ⟨hits, hhits, hlist⟩ := Option.bind_eq_some_iff.1 hprocess
  refine ⟨hits, hhits, ?_⟩
  cases hempty : hits.isEmpty with
  | true => simp [rankHits, hempty] at hlist
  | false =>
    obtain ⟨list', hlist', hranking⟩ := isRanking_rankHits hempty
    rw [hlist, Option.some.injEq] at hlist'
    rw [hlist']
    exact hranking

/-- A topic has no ranking exactly if it is not in the store or its map is
    empty. Any other topic has the ranking that its map, the pool, the target
    and the greatest depth describe. -/
theorem process_isRanking (p : Processor) (s : HitStore) (topic : String) :
    ((p.process s topic).1 = none ↔
      s.hits? topic = none ∨ ∃ hits, s.hits? topic = some hits ∧ hits.isEmpty = true) ∧
    ∀ hits, s.hits? topic = some hits → hits.isEmpty = false →
      ∃ list, (p.process s topic).1 = some list ∧ p.IsRanking topic hits list := by
  have hprocess : (p.process s topic).1 = (s.hits? topic).bind (p.rankHits topic) := rfl
  rw [hprocess]
  constructor
  · cases hhits : s.hits? topic with
    | none => simp
    | some hits =>
      cases hempty : hits.isEmpty with
      | true => simp [rankHits, hempty]
      | false => simp [rankHits, hempty]
  · intro hits hhits hne
    rw [hhits]
    exact isRanking_rankHits hne

/-- Two documents, one of which the pool has too, and one fresh id that the
    pool has twice: with a target of five the pool runs out, and with a depth
    of two a row is cut off. -/
theorem process_short_and_cut :
    ∃ list,
      (process ⟨some ⟨⟨["a", "f", "f"]⟩, 5, .seeded 7⟩, .ofDepth 2⟩
        ((HitStore.new .zero ⟨[]⟩).registerHits "T" [⟨"b", .zero⟩, ⟨"a", .zero⟩] false) "T").1
          = some list ∧
      list.entries.length = 2 ∧ list.truncated = true ∧ list.paddingExhausted = true := by
  obtain ⟨list, hlist, hranking⟩ :=
    (process_isRanking ⟨some ⟨⟨["a", "f", "f"]⟩, 5, .seeded 7⟩, .ofDepth 2⟩
      ((HitStore.new .zero ⟨[]⟩).registerHits "T" [⟨"b", .zero⟩, ⟨"a", .zero⟩] false) "T").2
      ⟨[("a", .zero), ("b", .zero)], by decide⟩ (by decide) (by decide)
  refine ⟨list, hlist, ?_, ?_, ?_⟩
  · rw [hranking.length_eq]
    decide
  · rw [hranking.truncated_iff]
    decide
  · rw [hranking.exhausted_iff]
    exact ⟨_, rfl, by decide⟩

end Processor

end EvalRun
