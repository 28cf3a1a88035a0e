import EvalRun.Ranking.Padder
import Mathlib.Data.Finset.Card

/-! # Proofs.Ranking.Padding — one pass over a shuffled pool

    A padding pass is described without its counters. The ids of an order that
    are neither reserved nor repeated are its **fresh** ids, and a pass takes
    as many of them from the front as there is room for.

    * **Orders.** Shuffling only exchanges elements, so an order has the ids of
      the pool, each as often as the pool has it.
    * **Drawing.** `drawFillers` gives the first fresh ids (`drawFillers_eq`).
      How many there are depends on the set of ids alone, not on their order.
    * **Padding.** The rows given stay in front; the pool runs out exactly if
      rows and fresh ids together do not reach the target.
-/

namespace EvalRun

/-! ### Orders -/

namespace Random.Generator

variable {α : Type}

theorem swapIfInBounds_perm (xs : Array α) (i j : Nat) :
    (xs.swapIfInBounds i j).toList.Perm xs.toList := by
  rw [Array.swapIfInBounds_def]
  split
  · split
    · exact (Array.swap_perm _ _).toList
    · exact .refl _
  · exact .refl _

theorem shuffleDown_perm (g : Random.Generator) (xs : Array α) (last : Nat) :
    (g.shuffleDown xs last).1.toList.Perm xs.toList := by
  induction last generalizing g xs with
  | zero => exact .refl _
  | succ i ih =>
    -- whatever is drawn, it only says which elements are exchanged
    simp only [shuffleDown]
    generalize g.below (i + 2) maxTries = drawn
    exact (ih _ _).trans (swapIfInBounds_perm xs (i + 1) _)

/-- Shuffling keeps the elements and how often each occurs. -/
theorem shuffle_perm (g : Random.Generator) (xs : List α) : (g.shuffle xs).1.Perm xs := by
  unfold shuffle
  exact g.shuffleDown_perm xs.toArray _

end Random.Generator

/-- A topic draws from an order of the whole pool. -/
theorem Padder.orderFor_perm (p : Padder) (topic : String) :
    (p.orderFor topic).Perm p.pool.ids := by
  unfold Padder.orderFor FillerPool.shuffled
  exact Random.Generator.shuffle_perm _ _

/-! ### Fresh ids -/

/-- The ids of an order that are neither reserved nor repeated. -/
def freshIds (reserved order : List String) : List String :=
  (order.filter (· ∉ reserved)).eraseDups

theorem nodup_eraseDups (ids : List String) : ids.eraseDups.Nodup := by
  -- the rest is filtered before it is searched on, so the induction is on the length
  induction hn : ids.length using Nat.strongRecOn generalizing ids with
  | _ n ih =>
    cases ids with
    | nil => simp
    | cons id rest =>
      rw [List.eraseDups_cons, List.nodup_cons]
      constructor
      · simp [List.mem_eraseDups]
      · have hle := List.length_filter_le (fun other => !other == id) rest
        exact ih _ (by simp only [List.length_cons] at hn; omega) _ rfl

theorem nodup_freshIds (reserved order : List String) : (freshIds reserved order).Nodup :=
  nodup_eraseDups _

theorem mem_freshIds {reserved order : List String} {id : String} :
    id ∈ freshIds reserved order ↔ id ∈ order ∧ id ∉ reserved := by
  simp [freshIds, List.mem_eraseDups]

/-- How many fresh ids an order has depends on the set of its ids alone. -/
theorem length_freshIds {reserved order ids : List String} (h : order.Perm ids) :
    (freshIds reserved order).length = (ids.toFinset.filter (· ∉ reserved)).card := by
  rw [← List.toFinset_card_of_nodup (nodup_freshIds reserved order)]
  congr 1
  ext id
  rw [List.mem_toFinset, mem_freshIds, Finset.mem_filter, List.mem_toFinset, h.mem_iff]

/-- Reserved ids only matter as a set. -/
theorem freshIds_congr {reserved others : List String} (order : List String)
    (h : ∀ id, id ∈ reserved ↔ id ∈ others) : freshIds reserved order = freshIds others order := by
  simp only [freshIds, h]

theorem freshIds_cons_of_mem {reserved order : List String} {id : String} (h : id ∈ reserved) :
    freshIds reserved (id :: order) = freshIds reserved order := by
  simp [freshIds, h]

/-- An id that is reserved or drawn counts no more. -/
theorem freshIds_cons_of_not_mem {reserved order : List String} {id : String}
    (h : id ∉ reserved) :
    freshIds reserved (id :: order) = id :: freshIds (id :: reserved) order := by
  have hrest : (order.filter (· ∉ reserved)).filter (fun other => !other == id)
      = order.filter (· ∉ id :: reserved) := by
    rw [List.filter_filter]
    apply List.filter_congr
    intro other _
    by_cases hid : other = id <;> simp [hid]
  unfold freshIds
  rw [List.filter_cons_of_pos (by simpa using h), List.eraseDups_cons, hrest]

/-- Drawing takes the first fresh ids, as many as there is room for. -/
theorem drawFillers_eq (room : Nat) (reserved order : List String) :
    drawFillers room reserved order = (freshIds reserved order).take room := by
  induction order generalizing room reserved with
  | nil => simp [drawFillers, freshIds]
  | cons id rest ih =>
    cases room with
    | zero => simp [drawFillers]
    | succ room =>
      by_cases hid : id ∈ reserved
      · simp [drawFillers, hid, ih, freshIds_cons_of_mem hid]
      · simp [drawFillers, hid, ih, freshIds_cons_of_not_mem hid]

/-! ### Padding -/

/-- The rows stay in front, and fresh ids fill them up to the target. -/
theorem padWithOrder_rows (target : Nat) (rows : List RankedEntry) (order : List String) :
    (padWithOrder target rows order).1
      = rows ++ ((freshIds (rows.map (·.doc)) order).take (target - rows.length)).map
          RankedEntry.ofFiller := by
  unfold padWithOrder
  rw [drawFillers_eq]

/-- As many ids are added as there is room for, or all that are fresh. -/
theorem padWithOrder_added (target : Nat) (rows : List RankedEntry) (order : List String) :
    (padWithOrder target rows order).2.added
      = min (target - rows.length) (freshIds (rows.map (·.doc)) order).length := by
  simp only [padWithOrder, drawFillers_eq, List.length_take]

theorem length_padWithOrder (target : Nat) (rows : List RankedEntry) (order : List String) :
    (padWithOrder target rows order).1.length
      = rows.length + min (target - rows.length) (freshIds (rows.map (·.doc)) order).length := by
  simp only [padWithOrder_rows, List.length_append, List.length_map, List.length_take]

/-- The ids of padded rows are those of the rows, and then the first fresh ones. -/
theorem map_doc_padWithOrder (target : Nat) (rows : List RankedEntry) (order : List String) :
    (padWithOrder target rows order).1.map (·.doc)
      = rows.map (·.doc) ++ (freshIds (rows.map (·.doc)) order).take (target - rows.length) := by
  simp [padWithOrder_rows, RankedEntry.ofFiller, Function.comp_def]

/-- Distinct ids stay distinct. -/
theorem nodup_doc_padWithOrder (target : Nat) {rows : List RankedEntry} (order : List String)
    (h : (rows.map (·.doc)).Nodup) : ((padWithOrder target rows order).1.map (·.doc)).Nodup := by
  rw [map_doc_padWithOrder, List.nodup_append]
  refine ⟨h, (nodup_freshIds _ _).sublist (List.take_sublist _ _), ?_⟩
  rintro doc hdoc id hid rfl
  exact (mem_freshIds.1 (List.mem_of_mem_take hid)).2 hdoc

/-- The pool runs out exactly if rows and fresh ids do not reach the target. -/
theorem padWithOrder_exhausted (target : Nat) (rows : List RankedEntry) (order : List String) :
    (padWithOrder target rows order).2.exhausted = true ↔
      rows.length + (freshIds (rows.map (·.doc)) order).length < target := by
  simp only [padWithOrder, drawFillers_eq, List.length_take, decide_eq_true_iff]
  omega

/-- Rows that reach the target would not be touched by a pass either. -/
theorem Padder.pad_eq (p : Padder) (topic : String) (rows : List RankedEntry) :
    p.pad topic rows = padWithOrder p.target rows (p.orderFor topic) := by
  unfold pad
  split
  · rename_i hle
    have hroom : p.target - rows.length = 0 := Nat.sub_eq_zero_of_le hle
    simp [padWithOrder, drawFillers_eq, hroom, hle]
  · rfl

end EvalRun
