import EvalRun.HitStore

/-! # Proofs.HitStore.Merge — the best of what was offered

    One topic at a time, merging is a fold over **offers**: documents with the
    scores that they are merged with. A map `Keeps` offers if it holds for
    every document one of its scores that no other of them exceeds.

    * **One offer.** Merging an offer into a map that keeps some gives a map
      that keeps one more (`Keeps.merge`). A NaN exceeds nothing and nothing
      exceeds it, so this needs no case for it.
    * **No order.** `Keeps` reads the offers as a set. Two maps that keep the
      same offers are equal, unless a NaN or a negative zero is among them
      (`Keeps.unique`): without those, comparison tells any two scores apart.
-/

namespace EvalRun

/-! ### Comparison of scores -/

namespace Binary64

/-- Without a NaN, a number that is not below another is not before it on the
    number line. -/
theorem lineKey_le_of_lt_eq_false {x y : Binary64} (hx : x.isNaN = false) (hy : y.isNaN = false)
    (h : x.lt y = false) : y.lineKey ≤ x.lineKey := by
  simp only [lt, hx, hy, Bool.not_false, Bool.true_and, decide_eq_false_iff_not] at h
  omega

/-- Neither a NaN nor a negative zero: a number that comparison tells apart
    from all others of its kind. -/
def IsPlain (x : Binary64) : Prop := x.isNaN = false ∧ x ≠ signedZero true

instance (x : Binary64) : Decidable x.IsPlain := inferInstanceAs (Decidable (_ ∧ _))

theorem lineKey_injective_of_isPlain {x y : Binary64} (hx : x.IsPlain) (hy : y.IsPlain)
    (h : x.lineKey = y.lineKey) : x = y := by
  obtain ⟨nx, mx, _⟩ := x
  obtain ⟨ny, my, _⟩ := y
  have hnx := hx.2
  have hny := hy.2
  simp only [signedZero, ne_eq, mk.injEq, not_and] at hnx hny
  simp only [lineKey] at h
  -- of the two numbers at zero on the line, the negative one is ruled out
  cases nx <;> cases ny <;> simp at h hnx hny ⊢ <;> omega

theorem eq_of_lt_eq_false {x y : Binary64} (hx : x.IsPlain) (hy : y.IsPlain)
    (hxy : x.lt y = false) (hyx : y.lt x = false) : x = y := by
  apply lineKey_injective_of_isPlain hx hy
  have hle := lineKey_le_of_lt_eq_false hx.1 hy.1 hxy
  have hge := lineKey_le_of_lt_eq_false hy.1 hx.1 hyx
  omega

end Binary64

/-! ### Offers -/

/-- The documents of a batch with the scores that they are merged with: the
    boost is added if the request has a formula, and zero otherwise. -/
def offers (boost : Binary64) (hasFormula : Bool) (batch : List Hit) :
    List (String × Binary64) :=
  batch.map fun hit => (hit.doc, hit.score.add (if hasFormula then boost else .zero))

namespace TopicHits

/-- The map with offers merged in, in their order. -/
def mergeAll (hits : TopicHits) (offered : List (String × Binary64)) : TopicHits :=
  offered.foldl (fun hits offer => hits.merge offer.1 offer.2) hits

theorem mergeHits_eq_mergeAll (s : HitStore) (hasFormula : Bool) (hits : TopicHits)
    (batch : List Hit) :
    s.mergeHits hasFormula hits batch = hits.mergeAll (offers s.boost hasFormula batch) := by
  simp only [HitStore.mergeHits, mergeAll, offers, List.foldl_map, HitStore.effective]

/-- The map holds, for every document that was offered, one of its scores that
    no other of them exceeds. -/
structure Keeps (hits : TopicHits) (offered : List (String × Binary64)) : Prop where
  /-- The documents are those that were offered. -/
  contains_iff : ∀ doc, hits.contains doc = true ↔ ∃ score, (doc, score) ∈ offered
  /-- A stored score is one that was offered for its document. -/
  mem_of_get? : ∀ doc score, hits.get? doc = some score → (doc, score) ∈ offered
  /-- No score that was offered for a document exceeds the stored one. -/
  lt_eq_false : ∀ doc score other, hits.get? doc = some score → (doc, other) ∈ offered →
    score.lt other = false

theorem keeps_empty : Keeps .empty [] where
  contains_iff doc := by simp [OrderedMap.contains]
  mem_of_get? doc score h := by simp at h
  lt_eq_false doc score other h := by simp at h

theorem get?_merge (hits : TopicHits) (doc other : String) (score : Binary64) :
    (hits.merge doc score).get? other =
      if other = doc then some (better (hits.get? doc) score) else hits.get? other :=
  OrderedMap.get?_alter hits doc other _

/-! ### Merging keeps the best -/

/-- The score that is kept is the stored one or the new one. -/
theorem better_eq (stored : Option Binary64) (score : Binary64) :
    better stored score = score ∨ stored = some (better stored score) := by
  cases stored with
  | none => exact .inl rfl
  | some old =>
    simp only [better]
    split
    · exact .inl rfl
    · exact .inr rfl

/-- The new score does not exceed the one that is kept. -/
theorem better_lt_new (stored : Option Binary64) (score : Binary64) :
    (better stored score).lt score = false := by
  cases stored with
  | none => exact Binary64.lt_irrefl score
  | some old =>
    simp only [better]
    split
    · exact Binary64.lt_irrefl score
    · rename_i h
      exact Bool.eq_false_iff.2 h

/-- What did not exceed the stored score does not exceed the one that is
    kept. -/
theorem better_lt_of_lt_eq_false {old score other : Binary64} (h : old.lt other = false) :
    (better (some old) score).lt other = false := by
  simp only [better]
  split
  · rename_i hlt
    apply Bool.eq_false_iff.2
    intro hother
    rw [Binary64.lt_trans hlt hother] at h
    cases h
  · exact h

namespace Keeps

variable {hits : TopicHits} {offered : List (String × Binary64)}

/-- A document without a score was not offered. -/
theorem not_mem_of_get?_eq_none (h : hits.Keeps offered) {doc : String}
    (hget : hits.get? doc = none) (score : Binary64) : (doc, score) ∉ offered := by
  intro hmem
  have hcontains := (h.contains_iff doc).2 ⟨score, hmem⟩
  rw [OrderedMap.not_contains_iff.2 hget] at hcontains
  cases hcontains

/-- One more offer. -/
theorem merge (h : hits.Keeps offered) (doc : String) (score : Binary64) :
    (hits.merge doc score).Keeps (offered ++ [(doc, score)]) where
  contains_iff name := by
    have hold := h.contains_iff name
    rw [OrderedMap.contains_iff] at hold ⊢
    rw [get?_merge]
    by_cases hname : name = doc
    · simp [hname]
    · simp [hname, hold]
  mem_of_get? name kept hget := by
    rw [get?_merge] at hget
    by_cases hname : name = doc
    · subst hname
      rw [if_pos rfl, Option.some.injEq] at hget
      subst hget
      rcases better_eq (hits.get? name) score with hnew | hstored
      · rw [hnew]
        simp
      · exact List.mem_append_left _ (h.mem_of_get? name _ hstored)
    · rw [if_neg hname] at hget
      exact List.mem_append_left _ (h.mem_of_get? name kept hget)
  lt_eq_false name kept other hget hmem := by
    rw [get?_merge] at hget
    rw [List.mem_append, List.mem_singleton, Prod.mk.injEq] at hmem
    by_cases hname : name = doc
    · subst hname
      rw [if_pos rfl, Option.some.injEq] at hget
      subst hget
      rcases hmem with hmem | ⟨-, rfl⟩
      -- an earlier score does not exceed the stored one, nor then the one that is kept
      · cases hstored : hits.get? name with
        | none => exact absurd hmem (h.not_mem_of_get?_eq_none hstored other)
        | some old => exact better_lt_of_lt_eq_false (h.lt_eq_false name old other hstored hmem)
      · exact better_lt_new _ _
    · rw [if_neg hname] at hget
      rcases hmem with hmem | ⟨rfl, -⟩
      · exact h.lt_eq_false name kept other hget hmem
      · exact absurd rfl hname

/-- More offers, in any number. -/
theorem mergeAll (h : hits.Keeps offered) (more : List (String × Binary64)) :
    (hits.mergeAll more).Keeps (offered ++ more) := by
  induction more generalizing hits offered with
  | nil => simpa [TopicHits.mergeAll] using h
  | cons offer rest ih =>
    have hrest := ih (h.merge offer.1 offer.2)
    rwa [List.append_assoc, List.singleton_append] at hrest

/-- Only the set of the offers matters. -/
theorem of_mem_iff {offered' : List (String × Binary64)} (h : hits.Keeps offered)
    (hmem : ∀ offer, offer ∈ offered ↔ offer ∈ offered') : hits.Keeps offered' where
  contains_iff doc := by
    rw [h.contains_iff]
    exact exists_congr fun score => hmem (doc, score)
  mem_of_get? doc score hget := (hmem _).1 (h.mem_of_get? doc score hget)
  lt_eq_false doc score other hget hother :=
    h.lt_eq_false doc score other hget ((hmem _).2 hother)

/-- If no score of a document is a NaN, the stored one is their maximum. -/
theorem lineKey_le (h : hits.Keeps offered) {doc : String} {score : Binary64}
    (hget : hits.get? doc = some score)
    (hnan : ∀ other, (doc, other) ∈ offered → other.isNaN = false) {other : Binary64}
    (hmem : (doc, other) ∈ offered) : other.lineKey ≤ score.lineKey :=
  Binary64.lineKey_le_of_lt_eq_false (hnan score (h.mem_of_get? doc score hget))
    (hnan other hmem) (h.lt_eq_false doc score other hget hmem)

/-- Without NaN and negative zero, the offers decide the map. -/
theorem unique {hits' : TopicHits} (h : hits.Keeps offered) (h' : hits'.Keeps offered)
    (hplain : ∀ offer ∈ offered, offer.2.IsPlain) : hits = hits' := by
  apply OrderedMap.ext_get?
  intro doc
  have hcontains : hits.contains doc = hits'.contains doc := by
    rw [Bool.eq_iff_iff, h.contains_iff, h'.contains_iff]
  cases hget : hits.get? doc with
  | none =>
    rw [OrderedMap.not_contains_iff.2 hget] at hcontains
    exact (OrderedMap.not_contains_iff.1 hcontains.symm).symm
  | some score =>
    rw [OrderedMap.contains_iff.2 ⟨score, hget⟩] at hcontains
    obtain ⟨score', hget'⟩ := OrderedMap.contains_iff.1 hcontains.symm
    -- each map holds a score that was offered to both, and neither exceeds the other
    have hmem := h.mem_of_get? doc score hget
    have hmem' := h'.mem_of_get? doc score' hget'
    have heq : score = score' :=
      Binary64.eq_of_lt_eq_false (hplain _ hmem) (hplain _ hmem')
        (h.lt_eq_false doc score score' hget hmem') (h'.lt_eq_false doc score' score hget' hmem)
    rw [hget', heq]

end Keeps

end TopicHits

end EvalRun
