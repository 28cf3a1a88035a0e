import EvalRun.Proofs.HitStore.Merge
import EvalRun.Proofs.Ranking.Enumeration

/-! # Proofs.HitStore.Reordering — what the order of offers can decide

    Merging keeps a score unless a greater one comes, so the first of two
    scores stays of which neither is greater. The order of the offers decides
    nothing if those are the same score. Without NaN there is one pair of
    different scores of which neither is greater, the two zeros; and ranking,
    which goes by the total order, tells them apart.

    * **Numbers.** In every order the same documents are stored, with scores
      that are equal as numbers (`Keeps.lineKey_eq`).
    * **No tie.** If no document ties at zero, the maps are equal, and so are
      their rankings (`Keeps.eq_of_not_tiesAtZero`).
    * **A tie.** If the greatest scores of a document are the two zeros, some
      order stores the other zero, and every ranking that is deep enough shows
      which (`exists_perm_of_tiesAtZero`).
-/

namespace EvalRun

namespace Binary64

/-- Only the two zeros are different numbers at one place of the number line. -/
theorem eq_or_isZero_of_lineKey_eq {x y : Binary64} (h : x.lineKey = y.lineKey) :
    x = y ∨ x.lineKey = 0 := by
  obtain ⟨nx, mx, _⟩ := x
  obtain ⟨ny, my, _⟩ := y
  simp only [lineKey] at h ⊢
  cases nx <;> cases ny <;> simp at h ⊢ <;> omega

/-- What stands at zero on the number line is one of the zeros. -/
theorem eq_signedZero_of_lineKey_eq_zero {x : Binary64} (h : x.lineKey = 0) :
    x = signedZero x.negative := by
  obtain ⟨nx, mx, _⟩ := x
  simp only [lineKey] at h
  have hmagnitude : mx = 0 := by
    cases nx <;> simp at h <;> omega
  simp only [signedZero, hmagnitude]

end Binary64

namespace TopicHits

variable {hits hits' : TopicHits} {offered : List (String × Binary64)}

/-! ### Numbers -/

/-- Both zeros were offered for the document, and nothing above them. -/
structure TiesAtZero (offered : List (String × Binary64)) (doc : String) : Prop where
  /-- Either zero was offered. -/
  mem : ∀ negative, (doc, Binary64.signedZero negative) ∈ offered
  /-- No score that was offered is positive. -/
  lt_eq_false : ∀ score, (doc, score) ∈ offered → Binary64.zero.lt score = false

/-- Maps that keep the same offers hold the same numbers. -/
theorem Keeps.lineKey_eq (h : hits.Keeps offered) (h' : hits'.Keeps offered)
    (hnan : ∀ offer ∈ offered, offer.2.isNaN = false) (doc : String) :
    (hits.get? doc).map (·.lineKey) = (hits'.get? doc).map (·.lineKey) := by
  have hplain : ∀ other, (doc, other) ∈ offered → other.isNaN = false := by
    intro other hother
    exact hnan (doc, other) hother
  by_cases hcontains : hits.contains doc = true
  · obtain ⟨score, hget⟩ := OrderedMap.contains_iff.1 hcontains
    obtain ⟨score', hget'⟩ :=
      OrderedMap.contains_iff.1 ((h'.contains_iff doc).2 ((h.contains_iff doc).1 hcontains))
    -- each score was offered to the map that holds the other
    have hle : score.lineKey ≤ score'.lineKey :=
      h'.lineKey_le hget' hplain (h.mem_of_get? doc score hget)
    have hge : score'.lineKey ≤ score.lineKey :=
      h.lineKey_le hget hplain (h'.mem_of_get? doc score' hget')
    rw [hget, hget', Option.map_some, Option.map_some, Int.le_antisymm hle hge]
  · have hcontains' : ¬ hits'.contains doc = true := by
      rwa [h'.contains_iff, ← h.contains_iff]
    rw [Bool.not_eq_true, OrderedMap.not_contains_iff] at hcontains hcontains'
    rw [hcontains, hcontains']

/-! ### No tie -/

/-- A document of which two maps that keep the same offers hold different
    scores ties at zero. -/
theorem Keeps.eq_or_tiesAtZero (h : hits.Keeps offered) (h' : hits'.Keeps offered)
    (hnan : ∀ offer ∈ offered, offer.2.isNaN = false) (doc : String) :
    hits.get? doc = hits'.get? doc ∨ TiesAtZero offered doc := by
  have hkeys := h.lineKey_eq h' hnan doc
  cases hget : hits.get? doc with
  | none =>
    rw [hget, Option.map_none, eq_comm, Option.map_eq_none_iff] at hkeys
    exact .inl hkeys.symm
  | some score =>
    rw [hget, Option.map_some, eq_comm, Option.map_eq_some_iff] at hkeys
    obtain ⟨score', hget', hkey⟩ := hkeys
    rcases Binary64.eq_or_isZero_of_lineKey_eq hkey with rfl | hzero
    · exact .inl hget'.symm
    · -- both scores are zeros, and they are the same zero or the two zeros
      have hscore := Binary64.eq_signedZero_of_lineKey_eq_zero (hkey.symm.trans hzero)
      have hscore' := Binary64.eq_signedZero_of_lineKey_eq_zero hzero
      by_cases hsign : score.negative = score'.negative
      · left
        rw [hget', hscore, hscore', hsign]
      · right
        have hmem := h.mem_of_get? doc score hget
        have hmem' := h'.mem_of_get? doc score' hget'
        rw [hscore] at hmem
        rw [hscore'] at hmem'
        refine ⟨?_, ?_⟩
        · intro negative
          by_cases hnegative : negative = score.negative
          · rw [hnegative]
            exact hmem
          · have hother : negative = score'.negative := by
              revert hnegative hsign
              cases negative <;> cases score.negative <;> cases score'.negative <;> decide
            rw [hother]
            exact hmem'
        · intro other hother
          have hle : other.lineKey ≤ score.lineKey :=
            h.lineKey_le hget (fun other hother => hnan (doc, other) hother) hother
          have hlow : ¬ Binary64.zero.lineKey < other.lineKey := by
            have hzeroKey : Binary64.zero.lineKey = 0 := rfl
            omega
          simp [Binary64.lt, hlow]

/-- Where no document ties at zero, the offers decide the map. -/
theorem Keeps.eq_of_not_tiesAtZero (h : hits.Keeps offered) (h' : hits'.Keeps offered)
    (hnan : ∀ offer ∈ offered, offer.2.isNaN = false)
    (hties : ∀ doc, ¬ TiesAtZero offered doc) : hits = hits' := by
  apply OrderedMap.ext_get?
  intro doc
  exact (h.eq_or_tiesAtZero h' hnan doc).resolve_right (hties doc)

/-! ### A tie -/

/-- A score that nothing exceeds stays. -/
theorem get?_mergeAll_of_forall_lt_eq_false {doc : String} {score : Binary64}
    (hget : hits.get? doc = some score) {more : List (String × Binary64)}
    (hmore : ∀ other, (doc, other) ∈ more → score.lt other = false) :
    (hits.mergeAll more).get? doc = some score := by
  induction more generalizing hits with
  | nil => exact hget
  | cons offer rest ih =>
    have hrest : ∀ other, (doc, other) ∈ rest → score.lt other = false := by
      intro other hother
      exact hmore other (List.mem_cons_of_mem _ hother)
    have hkept : (hits.merge offer.1 offer.2).get? doc = some score := by
      rw [get?_merge]
      by_cases hdoc : doc = offer.1
      · have hlt : score.lt offer.2 = false := by
          apply hmore
          rw [hdoc]
          exact List.mem_cons_self
        rw [if_pos hdoc, ← hdoc, hget, better, hlt, if_neg Bool.false_ne_true]
      · rw [if_neg hdoc, hget]
    exact ih hkept hrest

/-- A document that ties at zero is stored with one of the zeros. -/
theorem Keeps.exists_signedZero (h : hits.Keeps offered)
    (hnan : ∀ offer ∈ offered, offer.2.isNaN = false) {doc : String}
    (hties : TiesAtZero offered doc) :
    ∃ negative, hits.get? doc = some (.signedZero negative) := by
  obtain ⟨score, hget⟩ :=
    OrderedMap.contains_iff.1 ((h.contains_iff doc).2 ⟨_, hties.mem false⟩)
  have hmem : (doc, score) ∈ offered := h.mem_of_get? doc score hget
  have hge : Binary64.zero.lineKey ≤ score.lineKey :=
    h.lineKey_le hget (fun other hother => hnan (doc, other) hother) (hties.mem false)
  have hle : score.lineKey ≤ Binary64.zero.lineKey :=
    Binary64.lineKey_le_of_lt_eq_false rfl (hnan _ hmem) (hties.lt_eq_false score hmem)
  have hzero : score.lineKey = 0 := Int.le_antisymm hle hge
  exact ⟨score.negative, by rw [hget, ← Binary64.eq_signedZero_of_lineKey_eq_zero hzero]⟩

/-- Some order of the offers stores the zero that is asked for: the one in
    which that zero comes first. -/
theorem exists_perm_of_tiesAtZero {doc : String} (hties : TiesAtZero offered doc)
    (negative : Bool) :
    ∃ other, offered.Perm other ∧
      (mergeAll .empty other).get? doc = some (.signedZero negative) := by
  refine ⟨(doc, .signedZero negative) :: offered.erase (doc, .signedZero negative),
    List.perm_cons_erase (hties.mem negative), ?_⟩
  have hfirst : (merge .empty doc (.signedZero negative)).get? doc =
      some (.signedZero negative) := by
    rw [get?_merge, if_pos rfl]
    rfl
  refine get?_mergeAll_of_forall_lt_eq_false hfirst ?_
  intro score hscore
  -- neither zero is below what positive zero is not below
  have hzero := hties.lt_eq_false score (List.mem_of_mem_erase hscore)
  simp only [Binary64.lt] at hzero ⊢
  cases negative <;> exact hzero

/-! ### Rankings -/

variable {rows rows' : List RankedEntry}

/-- A ranking shows no score but the stored ones. -/
theorem get?_of_mem_entries_rank {r : Ranker} {topic : String} {exhausted : Bool}
    (hrows : rows.Perm hits.rows) {doc : String} {score : Binary64}
    (h : (doc, score) ∈ (r.rank topic rows exhausted).entries.map fun e => (e.doc, e.score)) :
    hits.get? doc = some score := by
  rw [Ranker.map_entries_rank fun _ _ => rfl] at h
  obtain ⟨row, hrow, heq⟩ := List.mem_map.1 h
  have hmem : row ∈ hits.rows := hrows.mem_iff.1 (List.mem_mergeSort.1 (List.mem_of_mem_take hrow))
  obtain ⟨doc', score', hget, rfl⟩ := mem_rows.1 hmem
  obtain ⟨rfl, rfl⟩ := Prod.mk.inj heq
  exact hget

/-- A ranking that is deep enough shows the score of every document. -/
theorem mem_entries_rank (r : Ranker) (topic : String) (exhausted : Bool)
    (hrows : rows.Perm hits.rows) (hdepth : hits.size ≤ r.maxDepth) {doc : String}
    {score : Binary64} (hget : hits.get? doc = some score) :
    (doc, score) ∈ (r.rank topic rows exhausted).entries.map fun e => (e.doc, e.score) := by
  have hall : (rows.mergeSort RankedEntry.le).take r.maxDepth = rows.mergeSort RankedEntry.le := by
    apply List.take_of_length_le
    rw [List.length_mergeSort, hrows.length_eq, length_rows]
    exact hdepth
  have hmem : RankedEntry.ofRetrieved doc score ∈ rows :=
    hrows.mem_iff.2 (mem_rows.2 ⟨doc, score, hget, rfl⟩)
  rw [Ranker.map_entries_rank fun _ _ => rfl, hall]
  exact List.mem_map.2 ⟨_, List.mem_mergeSort.2 hmem, rfl⟩

/-- What the order of offers decides, where no score is a NaN.

    * In every order the same documents are stored, with scores that are equal
      as numbers.
    * If no document ties at zero, every order gives the same rankings, of
      whatever depth and however the maps are enumerated.
    * If a document ties at zero, an order stores the other zero for it, and no
      ranking that lists all documents is the same. -/
theorem mergeAll_reordered (hnan : ∀ offer ∈ offered, offer.2.isNaN = false) :
    (∀ other, offered.Perm other → ∀ doc,
      ((mergeAll .empty offered).get? doc).map (·.lineKey) =
        ((mergeAll .empty other).get? doc).map (·.lineKey)) ∧
    ((∀ doc, ¬ TiesAtZero offered doc) → ∀ other, offered.Perm other →
      ∀ rows rows', rows.Perm (mergeAll .empty offered).rows →
        rows'.Perm (mergeAll .empty other).rows → ∀ (r : Ranker) (topic : String)
        (exhausted : Bool), r.rank topic rows exhausted = r.rank topic rows' exhausted) ∧
    ∀ doc, TiesAtZero offered doc → ∃ other negative, offered.Perm other ∧
      (mergeAll .empty offered).get? doc = some (.signedZero negative) ∧
      (mergeAll .empty other).get? doc = some (.signedZero !negative) ∧
      ∀ rows rows', rows.Perm (mergeAll .empty offered).rows →
        rows'.Perm (mergeAll .empty other).rows → ∀ (r : Ranker) (topic : String)
        (exhausted : Bool), (mergeAll .empty offered).size ≤ r.maxDepth →
          r.rank topic rows exhausted ≠ r.rank topic rows' exhausted := by
  have hkeeps : (mergeAll .empty offered).Keeps offered := keeps_empty.mergeAll offered
  have hreordered {other : List (String × Binary64)} (hperm : offered.Perm other) :
      (mergeAll .empty other).Keeps offered := by
    have hother : (mergeAll .empty other).Keeps other := keeps_empty.mergeAll other
    exact hother.of_mem_iff fun offer => hperm.symm.mem_iff
  refine ⟨?_, ?_, ?_⟩
  · intro other hperm doc
    exact hkeeps.lineKey_eq (hreordered hperm) hnan doc
  · intro hties other hperm rows rows' hrows hrows' r topic exhausted
    have hsame := hkeeps.eq_of_not_tiesAtZero (hreordered hperm) hnan hties
    rw [← hsame] at hrows'
    have hdistinct : (rows.map (·.doc)).Nodup :=
      (hrows.map _).nodup_iff.2 (nodup_doc_rows _)
    exact Ranker.rank_of_perm hdistinct (hrows.trans hrows'.symm)
  · intro doc hties
    obtain ⟨negative, hget⟩ := hkeeps.exists_signedZero hnan hties
    obtain ⟨other, hperm, hget'⟩ := exists_perm_of_tiesAtZero hties !negative
    refine ⟨other, negative, hperm, hget, hget', ?_⟩
    intro rows rows' hrows hrows' r topic exhausted hdepth hrank
    -- the document would stand in the second ranking with the zero of the first
    have hshown := mem_entries_rank r topic exhausted hrows hdepth hget
    rw [hrank] at hshown
    have hstored := get?_of_mem_entries_rank hrows' hshown
    rw [hget', Option.some.injEq] at hstored
    have hsign := congrArg Binary64.negative hstored
    simp [Binary64.signedZero] at hsign

/-- A document with a positive score beside both zeros does not tie, and one
    with both zeros and a number below them does. -/
theorem mergeAll_reordered_below_zero :
    let offered : List (String × Binary64) :=
      [("a", .zero), ("b", .signedZero true), ("a", ⟨false, 0x4000000000000000, by decide⟩),
        ("b", .zero), ("a", .signedZero true), ("b", ⟨true, 0x4008000000000000, by decide⟩)]
    (∀ offer ∈ offered, offer.2.isNaN = false) ∧ ¬ TiesAtZero offered "a" ∧
      TiesAtZero offered "b" ∧
      ∃ other negative, offered.Perm other ∧
        (mergeAll .empty offered).get? "b" = some (.signedZero negative) ∧
        (mergeAll .empty other).get? "b" = some (.signedZero !negative) := by
  intro offered
  have hnan : ∀ offer ∈ offered, offer.2.isNaN = false := by decide
  have hfree : ¬ TiesAtZero offered "a" := by
    intro hties
    exact absurd (hties.lt_eq_false ⟨false, 0x4000000000000000, by decide⟩ (by decide))
      (by decide)
  have hties : TiesAtZero offered "b" := by
    refine ⟨by decide, ?_⟩
    intro score hscore
    have hscores : score = .signedZero true ∨ score = .zero ∨
        score = ⟨true, 0x4008000000000000, by decide⟩ := by
      simpa [offered] using hscore
    rcases hscores with rfl | rfl | rfl <;> decide
  obtain ⟨other, negative, hperm, hget, hget', -⟩ := (mergeAll_reordered hnan).2.2 "b" hties
  exact ⟨hnan, hfree, hties, other, negative, hperm, hget, hget'⟩

/-- Two orders of the zeros of one document have different rankings. -/
theorem rank_zeros_reordered_ne :
    let offered : List (String × Binary64) := [("d", .zero), ("d", .signedZero true)]
    let other : List (String × Binary64) := [("d", .signedZero true), ("d", .zero)]
    offered.Perm other ∧ (∀ offer ∈ offered, offer.2.isNaN = false) ∧
      (Ranker.ofDepth 1).rank "T" (mergeAll .empty offered).rows false ≠
        (Ranker.ofDepth 1).rank "T" (mergeAll .empty other).rows false := by
  intro offered other
  have hrows : (mergeAll .empty offered).rows = [.ofRetrieved "d" .zero] := by decide
  have hrows' : (mergeAll .empty other).rows = [.ofRetrieved "d" (.signedZero true)] := by decide
  refine ⟨by decide, by decide, ?_⟩
  rw [hrows, hrows']
  simp only [Ranker.rank, List.mergeSort_singleton]
  decide

end TopicHits

end EvalRun
