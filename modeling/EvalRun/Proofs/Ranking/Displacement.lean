import EvalRun.Proofs.Ranking.Processing
import EvalRun.Proofs.Text.ByteOrder

/-! # Proofs.Ranking.Displacement — fillers take no document's place

    Fillers are sorted and cut together with the documents of a topic, and a
    score of zero may be better than that of a document. Two things keep a
    filler from pushing a document out of the ranking:

    * **Room.** If the padding target is no greater than the depth, then
      padding adds nothing or nothing is cut off. Either way the documents
      that are ranked are the same as without padding
      (`map_retrieved_rank_append`).
    * **Scores above zero.** Documents that are all better than a filler stand
      before all fillers. So the ranking without padding is the beginning of
      the one with it, and fillers follow in the order of their ids
      (`entries_rank_append`).
-/

namespace EvalRun

namespace Ranker

variable {r : Ranker} {topic : String} {rows front back : List RankedEntry}
  {exhausted exhausted' : Bool} {fillers : List String}

/-- Leaving rows out of a ranking, as far as ranks do not matter. -/
theorem map_filter_entries_rank {β : Type} {f : RankedEntry → β} {keep : RankedEntry → Bool}
    (hf : ∀ e rank, f { e with rank } = f e) (hkeep : ∀ e rank, keep { e with rank } = keep e) :
    ((r.rank topic rows exhausted).entries.filter keep).map f
      = (((rows.mergeSort RankedEntry.le).take r.maxDepth).filter keep).map f :=
  map_filter_number hf hkeep 1 _

/-- Fillers that leave nothing to be cut off do not change which documents are
    ranked, nor their order. -/
theorem map_retrieved_rank_append {β : Type} {f : RankedEntry → β}
    (hf : ∀ e rank, f { e with rank } = f e) (hrows : ∀ row ∈ rows, row.origin = .retrieved)
    (hdistinct : ((rows ++ fillers.map RankedEntry.ofFiller).map (·.doc)).Nodup)
    (hroom : fillers = [] ∨ rows.length + fillers.length ≤ r.maxDepth) :
    ((r.rank topic (rows ++ fillers.map RankedEntry.ofFiller) exhausted).entries.filter
        (·.origin = .retrieved)).map f
      = (r.rank topic rows exhausted').entries.map f := by
  rw [map_filter_entries_rank hf fun _ _ => rfl, map_entries_rank hf]
  rcases hroom with rfl | hroom
  · -- nothing was added, so every row is a document
    rw [List.map_nil, List.append_nil, List.filter_eq_self.2]
    intro row hrow
    exact decide_eq_true (hrows row (List.mem_mergeSort.1 (List.mem_of_mem_take hrow)))
  · -- nothing is cut off, so the documents are sorted as they are among themselves
    have hdocuments : rows.filter (·.origin = .retrieved) = rows :=
      List.filter_eq_self.2 fun row hrow => decide_eq_true (hrows row hrow)
    have hfillers : (fillers.map RankedEntry.ofFiller).filter (·.origin = .retrieved) = [] := by
      simp [RankedEntry.ofFiller]
    rw [List.take_of_length_le (by simpa using hroom),
      List.take_of_length_le (by rw [List.length_mergeSort]; omega),
      RankedEntry.filter_mergeSort hdistinct, List.filter_append, hdocuments, hfillers,
      List.append_nil]

/-- If one group of rows comes before another, the ranking of both begins with
    that of the first, and as much of the second follows as the depth admits. -/
theorem entries_rank_append (r : Ranker) (topic : String) (exhausted exhausted' : Bool)
    (hdistinct : ((front ++ back).map (·.doc)).Nodup)
    (hbefore : ∀ a ∈ front, ∀ b ∈ back, RankedEntry.order a b = .lt) :
    (r.rank topic (front ++ back) exhausted).entries
      = (r.rank topic front exhausted').entries
        ++ number (1 + min r.maxDepth front.length)
            ((back.mergeSort RankedEntry.le).take (r.maxDepth - front.length)) := by
  simp only [rank, RankedEntry.mergeSort_append hdistinct hbefore, List.take_append,
    number_append, List.length_take, List.length_mergeSort]

/-- Behind rows that come before all fillers, the fillers follow in the order of
    the bytes of their ids. -/
theorem exists_entries_rank_append (r : Ranker) (topic : String) (exhausted exhausted' : Bool)
    (hdistinct : ((rows ++ fillers.map RankedEntry.ofFiller).map (·.doc)).Nodup)
    (hbefore : ∀ row ∈ rows, ∀ b ∈ fillers.map RankedEntry.ofFiller,
      RankedEntry.order row b = .lt) :
    ∃ rest : List RankedEntry,
      (r.rank topic (rows ++ fillers.map RankedEntry.ofFiller) exhausted).entries
          = (r.rank topic rows exhausted').entries ++ rest ∧
        (∀ e ∈ rest, e.origin = .filler) ∧
        rest.Pairwise fun a b => Text.bytes a.doc < Text.bytes b.doc := by
  have hentries := entries_rank_append r topic exhausted exhausted' hdistinct hbefore
  have hordered : List.Pairwise (fun a b => RankedEntry.order a b = .lt)
      (r.rank topic (rows ++ fillers.map RankedEntry.ofFiller) exhausted).entries :=
    pairwise_rank hdistinct
  generalize hrest : number _ _ = rest at hentries
  have hfiller (e : RankedEntry) (he : e ∈ rest) : e.score = .zero ∧ e.origin = .filler := by
    rw [← hrest] at he
    obtain ⟨row, hrow, heq⟩ := exists_of_mem_number he
    obtain ⟨id, -, rfl⟩ := List.mem_map.1 (List.mem_mergeSort.1 (List.mem_of_mem_take hrow))
    rw [heq]
    exact ⟨rfl, rfl⟩
  rw [hentries] at hordered
  refine ⟨rest, hentries, fun e he => (hfiller e he).2, ?_⟩
  -- fillers have one score, so their ids alone decide where they stand
  refine (List.pairwise_append.1 hordered).2.1.imp_of_mem fun {a b} ha hb hlt => ?_
  rcases RankedEntry.order_eq_lt_iff.1 hlt with hscore | ⟨-, hdoc⟩
  · rw [(hfiller a ha).1, (hfiller b hb).1] at hscore
    exact absurd hscore (Int.lt_irrefl _)
  · exact Text.bytes_lt_bytes_iff.2 hdoc

end Ranker

namespace Processor

variable {s : HitStore} {topic : String} {hits : TopicHits}

theorem process_eq_rank (p : Processor) (hhits : s.hits? topic = some hits)
    (hne : hits.isEmpty = false) :
    (p.process s topic).1
      = some (p.ranker.rank topic (p.padded topic hits.rows).1 (p.padded topic hits.rows).2) := by
  have hprocess : (p.process s topic).1 = (s.hits? topic).bind (p.rankHits topic) := rfl
  rw [hprocess, hhits, Option.bind_some, p.rankHits_eq_rank topic hne]

/-- A document with a score above zero comes before every filler. -/
theorem order_ofFiller_eq_lt
    (hpositive : ∀ doc score, hits.get? doc = some score → Binary64.zero.lt score = true)
    {fillers : List String} {a b : RankedEntry} (ha : a ∈ hits.rows)
    (hb : b ∈ fillers.map RankedEntry.ofFiller) : RankedEntry.order a b = .lt := by
  obtain ⟨doc, score, hget, rfl⟩ := TopicHits.mem_rows.1 ha
  obtain ⟨id, -, rfl⟩ := List.mem_map.1 hb
  exact RankedEntry.order_eq_lt_iff.2 (.inl (Binary64.totalKey_lt_of_lt (hpositive doc score hget)))

/-- The documents of a topic are ranked with padding as they are without it. If
    the padding target is no greater than the depth, the padded ranking has the
    documents of the unpadded one with their scores, in the same order, and
    fillers between them. If all scores are above zero, it begins with the
    unpadded ranking, ranks included, whatever target and depth are, and only
    fillers follow, in the order of the bytes of their ids. -/
theorem process_keeps_retrieved (padder : Padder) (ranker : Ranker) (s : HitStore)
    (topic : String) (hits : TopicHits) (hhits : s.hits? topic = some hits)
    (hne : hits.isEmpty = false) :
    ∃ padded unpadded,
      (process ⟨some padder, ranker⟩ s topic).1 = some padded ∧
      (process ⟨none, ranker⟩ s topic).1 = some unpadded ∧
      (padder.target ≤ ranker.maxDepth →
        (padded.entries.filter (·.origin = .retrieved)).map (fun e => (e.doc, e.score))
          = unpadded.entries.map fun e => (e.doc, e.score)) ∧
      ((∀ doc score, hits.get? doc = some score → Binary64.zero.lt score = true) →
        padded.entries.take (min ranker.maxDepth hits.size) = unpadded.entries ∧
        (∀ e ∈ padded.entries.drop (min ranker.maxDepth hits.size), e.origin = .filler) ∧
        (padded.entries.drop (min ranker.maxDepth hits.size)).Pairwise fun a b =>
          Text.bytes a.doc < Text.bytes b.doc) := by
  obtain ⟨fillers, hrows, -, hsize, -⟩ :=
    exists_padded_rows ⟨some padder, ranker⟩ topic hits
  have hdistinct := nodup_doc_padded ⟨some padder, ranker⟩ topic hits
  rw [hrows] at hdistinct
  refine ⟨_, _, process_eq_rank _ hhits hne, process_eq_rank _ hhits hne, ?_, ?_⟩
  · intro htarget
    -- padding adds nothing to rows that reach the target, and otherwise stops there
    have hroom : fillers = [] ∨ hits.rows.length + fillers.length ≤ ranker.maxDepth := by
      rw [TopicHits.length_rows]
      simp only [paddedSize] at hsize
      split at hsize
      · exact .inl (List.length_eq_zero_iff.1 (by omega))
      · exact .inr (by omega)
    have hretrieved (row : RankedEntry) (hrow : row ∈ hits.rows) : row.origin = .retrieved := by
      obtain ⟨doc, score, -, rfl⟩ := TopicHits.mem_rows.1 hrow
      rfl
    rw [hrows]
    exact Ranker.map_retrieved_rank_append (fun _ _ => rfl) hretrieved hdistinct hroom
  · intro hpositive
    obtain ⟨rest, hentries, hfiller, hsorted⟩ :=
      Ranker.exists_entries_rank_append ranker topic
        (padded ⟨some padder, ranker⟩ topic hits.rows).2
        (padded ⟨none, ranker⟩ topic hits.rows).2 hdistinct
        fun _ ha _ hb => order_ofFiller_eq_lt hpositive ha hb
    have hlength : (ranker.rank topic hits.rows
        (padded ⟨none, ranker⟩ topic hits.rows).2).entries.length
          = min ranker.maxDepth hits.size := by
      rw [Ranker.length_rank, TopicHits.length_rows]
    rw [hrows, hentries, List.take_left' hlength, List.drop_left' hlength]
    exact ⟨rfl, hfiller, hsorted⟩

/-- With room for all, a document just below zero is kept behind a filler. A
    document just above zero stays in front even where fillers are cut off. -/
theorem process_keeps_retrieved_around_zero :
    let hits (negative : Bool) : TopicHits :=
      ⟨[("a", ⟨negative, 1, by decide⟩)], List.pairwise_singleton _ _⟩
    let s (negative : Bool) : HitStore :=
      ⟨.zero, ⟨[]⟩, ⟨[("T", hits negative)], List.pairwise_singleton _ _⟩⟩
    let padder (target : Nat) : Padder := ⟨⟨["f", "a", "g", "e"]⟩, target, .seeded 7⟩
    ((s true).hits? "T" = some (hits true) ∧ (hits true).isEmpty = false ∧
      2 ≤ (Ranker.ofDepth 2).maxDepth ∧
      ∃ padded unpadded,
        (process ⟨some (padder 2), .ofDepth 2⟩ (s true) "T").1 = some padded ∧
        (process ⟨none, .ofDepth 2⟩ (s true) "T").1 = some unpadded ∧
        (padded.entries.filter (·.origin = .retrieved)).map (fun e => (e.doc, e.score))
          = unpadded.entries.map fun e => (e.doc, e.score)) ∧
    ((s false).hits? "T" = some (hits false) ∧ (hits false).isEmpty = false ∧
      (∀ doc score, (hits false).get? doc = some score → Binary64.zero.lt score = true) ∧
      ∃ padded unpadded,
        (process ⟨some (padder 9), .ofDepth 3⟩ (s false) "T").1 = some padded ∧
        (process ⟨none, .ofDepth 3⟩ (s false) "T").1 = some unpadded ∧
        padded.entries.take 1 = unpadded.entries ∧
        ∀ e ∈ padded.entries.drop 1, e.origin = .filler) := by
  intro hits s padder
  have hstored (negative : Bool) : (s negative).hits? "T" = some (hits negative) := rfl
  have hne (negative : Bool) : (hits negative).isEmpty = false := rfl
  have hroom : 2 ≤ (Ranker.ofDepth 2).maxDepth := by decide
  have hpositive (doc : String) (score : Binary64) (h : (hits false).get? doc = some score) :
      Binary64.zero.lt score = true := by
    have hmem := OrderedMap.mem_entries.2 h
    simp only [hits, List.mem_singleton, Prod.mk.injEq] at hmem
    rw [hmem.2]
    decide
  constructor
  · obtain ⟨padded, unpadded, hpadded, hunpadded, hretrieved, -⟩ :=
      process_keeps_retrieved (padder 2) (.ofDepth 2) (s true) "T" (hits true) (hstored true)
        (hne true)
    exact ⟨hstored true, hne true, hroom, padded, unpadded, hpadded, hunpadded, hretrieved hroom⟩
  · obtain ⟨padded, unpadded, hpadded, hunpadded, -, hbegins⟩ :=
      process_keeps_retrieved (padder 9) (.ofDepth 3) (s false) "T" (hits false) (hstored false)
        (hne false)
    exact ⟨hstored false, hne false, hpositive, padded, unpadded, hpadded, hunpadded,
      (hbegins hpositive).1, (hbegins hpositive).2.1⟩

end Processor

end EvalRun
