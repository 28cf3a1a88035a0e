import EvalRun.Proofs.Ranking.Processing

/-! # Proofs.Ranking.Enumeration — rows in any order have one ranking

    A map from documents to scores can be enumerated in many orders, and a
    ranking must not show which of them was taken.

    * **Padding.** A pass reads the rows only for their number and for the set
      of their ids, so it adds the same fillers behind them
      (`padWithOrder_of_perm`).
    * **Sorting.** Padded rows have distinct ids, and such rows have one sorted
      order, whatever their scores are.
    * **Depth.** The greatest depth comes in only after sorting. A smaller one
      cuts the same ranking earlier (`take_entries_rank`).
-/

namespace EvalRun

/-- Padding rows that come in another order adds the same fillers. -/
theorem padWithOrder_of_perm (target : Nat) {xs ys : List RankedEntry} (order : List String)
    (hperm : xs.Perm ys) :
    (padWithOrder target xs order).1.Perm (padWithOrder target ys order).1 ∧
      (padWithOrder target xs order).2 = (padWithOrder target ys order).2 := by
  have hfresh : freshIds (xs.map (·.doc)) order = freshIds (ys.map (·.doc)) order :=
    freshIds_congr order fun _ => (hperm.map _).mem_iff
  simp only [padWithOrder, drawFillers_eq, hfresh, hperm.length_eq, and_true]
  exact hperm.append_right _

namespace Ranker

variable {r : Ranker} {topic : String} {exhausted : Bool}

/-- Rows with distinct ids are ranked alike in whatever order they come. -/
theorem rank_of_perm {xs ys : List RankedEntry} (hdistinct : (xs.map (·.doc)).Nodup)
    (hperm : xs.Perm ys) : r.rank topic xs exhausted = r.rank topic ys exhausted := by
  simp only [rank, RankedEntry.mergeSort_eq_of_perm hdistinct hperm, hperm.length_eq]

theorem rank_padWithOrder_of_perm (target : Nat) {xs ys : List RankedEntry}
    (order : List String) (hdistinct : (xs.map (·.doc)).Nodup) (hperm : xs.Perm ys) :
    r.rank topic (padWithOrder target xs order).1 (padWithOrder target xs order).2.exhausted
      = r.rank topic (padWithOrder target ys order).1
          (padWithOrder target ys order).2.exhausted := by
  obtain ⟨hrows, houtcome⟩ := padWithOrder_of_perm target order hperm
  rw [houtcome]
  exact rank_of_perm (nodup_doc_padWithOrder target order hdistinct) hrows

/-- A smaller depth keeps the first rows of a greater one, with their ranks. -/
theorem take_entries_rank {first second : Nat} (h : first ≤ second) (rows : List RankedEntry) :
    ((ofDepth second).rank topic rows exhausted).entries.take first
      = ((ofDepth first).rank topic rows exhausted).entries := by
  have hdepth : min first (min second depthLimit) = min first depthLimit := by omega
  simp only [rank, ofDepth, take_number, List.take_take, hdepth]

/-- Rows with distinct ids are padded and ranked alike in whatever order they
    come, whatever their scores: padding reports the same, and the rankings
    have the same rows with the same ranks and the same flags. The depth only
    cuts: a ranking is the beginning of every deeper one of the same rows. -/
theorem rank_ignores_enumeration :
    (∀ (target : Nat) (xs ys : List RankedEntry) (order : List String) (r : Ranker)
        (topic : String), xs.Perm ys → (xs.map (·.doc)).Nodup →
      let left := padWithOrder target xs order
      let right := padWithOrder target ys order
      left.2 = right.2 ∧
        r.rank topic left.1 left.2.exhausted = r.rank topic right.1 right.2.exhausted) ∧
    ∀ (first second : Nat) (rows : List RankedEntry) (topic : String) (exhausted : Bool),
      first ≤ second →
      ((ofDepth first).rank topic rows exhausted).entries
        = ((ofDepth second).rank topic rows exhausted).entries.take first := by
  constructor
  · intro target xs ys order r topic hperm hdistinct
    exact ⟨(padWithOrder_of_perm target order hperm).2,
      rank_padWithOrder_of_perm target order hdistinct hperm⟩
  · intro first second rows topic exhausted h
    exact (take_entries_rank h rows).symm

/-- A NaN and both zeros in two orders, with an order of the pool that repeats
    an id and has one of a row. -/
theorem rank_ignores_enumeration_nan :
    let a := RankedEntry.ofRetrieved "a" (.quietNaN false)
    let b := RankedEntry.ofRetrieved "b" (.signedZero true)
    let c := RankedEntry.ofRetrieved "c" .zero
    [a, b, c].Perm [c, a, b] ∧ ([a, b, c].map (·.doc)).Nodup ∧
      (ofDepth 3).rank "T" (padWithOrder 5 [a, b, c] ["f", "b", "f"]).1 true
        = (ofDepth 3).rank "T" (padWithOrder 5 [c, a, b] ["f", "b", "f"]).1 true ∧
      1 ≤ 3 ∧
      ((ofDepth 1).rank "T" [a, b, c] false).entries
        = ((ofDepth 3).rank "T" [a, b, c] false).entries.take 1 := by
  intro a b c
  have hperm : [a, b, c].Perm [c, a, b] := by decide
  have hdistinct : ([a, b, c].map (·.doc)).Nodup := by decide
  refine ⟨hperm, hdistinct, ?_, by decide, ?_⟩
  · exact (rank_ignores_enumeration.1 5 [a, b, c] [c, a, b] ["f", "b", "f"] (ofDepth 3) "T"
      hperm hdistinct).2
  · exact rank_ignores_enumeration.2 1 3 [a, b, c] "T" false (by decide)

end Ranker

end EvalRun
