import EvalRun.Proofs.Ranking.Padding
import Mathlib.Data.List.Nodup

/-! # Proofs.Ranking.Passes — one padding pass, and one after another

    A padding pass is determined by the fresh ids of its order: it takes them
    from the front until the target is reached (`padWithOrder_appends_fresh`).

    * **What is left.** The ids that a pass draws are reserved for the next
      one. Of the fresh ids the next pass finds those that the first one did
      not reach, in their order (`freshIds_append_take`).
    * **Two passes.** So a pass to a greater target goes on where the first
      one stopped, and both together do what a single pass to the greater
      target does (`padWithOrder_incremental`).
-/

namespace EvalRun

/-! ### One pass -/

/-- A pass leaves the rows in front as they are. Behind them it puts the ids of
    the order that are neither among the rows nor repeated, as many of the
    first of them as are missing from the target, each without a score and
    unranked. It reports how many it added and whether the rows stay below the
    target. A padder does the same with its order of the pool, also for rows
    that reach its target and for which it draws no order. -/
theorem padWithOrder_appends_fresh (target : Nat) (rows : List RankedEntry)
    (order : List String) :
    (padWithOrder target rows order).1
        = rows ++ ((freshIds (rows.map (·.doc)) order).take (target - rows.length)).map
            (fun id => ⟨id, .zero, 0, .filler⟩) ∧
      rows.length + (padWithOrder target rows order).2.added
        = (padWithOrder target rows order).1.length ∧
      ((padWithOrder target rows order).2.exhausted = true ↔
        (padWithOrder target rows order).1.length < target) ∧
      ∀ (p : Padder) (topic : String),
        p.pad topic rows = padWithOrder p.target rows (p.orderFor topic) := by
  refine ⟨padWithOrder_rows target rows order, ?_, ?_, fun p topic => p.pad_eq topic rows⟩
  · rw [padWithOrder_added, length_padWithOrder]
  · rw [padWithOrder_exhausted, length_padWithOrder]
    omega

/-! ### What a pass leaves to the next -/

/-- Reserving more ids takes them out of the fresh ones and keeps the order of
    the others. -/
theorem freshIds_append (reserved more order : List String) :
    freshIds (reserved ++ more) order = (freshIds reserved order).filter (· ∉ more) := by
  induction order generalizing reserved with
  | nil => simp [freshIds]
  | cons id rest ih =>
    by_cases hid : id ∈ reserved
    · rw [freshIds_cons_of_mem hid, freshIds_cons_of_mem (List.mem_append_left more hid), ih]
    · by_cases hmore : id ∈ more
      · -- the id is skipped on both sides, so it makes no difference that it is reserved twice
        have hset (other : String) :
            other ∈ reserved ++ more ↔ other ∈ (id :: reserved) ++ more := by
          by_cases hother : other = id
          · simp [hother, hmore]
          · simp [hother]
        rw [freshIds_cons_of_mem (List.mem_append_right reserved hmore),
          freshIds_cons_of_not_mem hid, List.filter_cons_of_neg (by simpa using hmore), ← ih,
          freshIds_congr rest hset]
      · have hnew : id ∉ reserved ++ more := by simp [hid, hmore]
        rw [freshIds_cons_of_not_mem hnew, freshIds_cons_of_not_mem hid,
          List.filter_cons_of_pos (by simpa using hmore), ← ih, List.cons_append]

theorem filter_not_mem_take {ids : List String} (hnodup : ids.Nodup) (n : Nat) :
    ids.filter (· ∉ ids.take n) = ids.drop n := by
  have hfirst : (ids.take n).filter (· ∉ ids.take n) = [] := by simp
  have hrest : (ids.drop n).filter (· ∉ ids.take n) = ids.drop n := by
    apply List.filter_eq_self.2
    intro id hid
    have hdisjoint := List.disjoint_take_drop hnodup (Nat.le_refl n)
    exact decide_eq_true fun htake => hdisjoint htake hid
  calc
    ids.filter (· ∉ ids.take n)
        = (ids.take n ++ ids.drop n).filter (· ∉ ids.take n) := by rw [List.take_append_drop]
    _ = ids.drop n := by rw [List.filter_append, hfirst, hrest, List.nil_append]

/-- Once the first fresh ids are reserved too, the others are left. -/
theorem freshIds_append_take (reserved order : List String) (n : Nat) :
    freshIds (reserved ++ (freshIds reserved order).take n) order
      = (freshIds reserved order).drop n := by
  rw [freshIds_append, filter_not_mem_take (nodup_freshIds reserved order)]

/-- After a pass, the fresh ids are those that it did not reach. -/
theorem freshIds_padWithOrder (target : Nat) (rows : List RankedEntry) (order : List String) :
    freshIds ((padWithOrder target rows order).1.map (·.doc)) order
      = (freshIds (rows.map (·.doc)) order).drop (target - rows.length) := by
  rw [map_doc_padWithOrder, freshIds_append_take]

/-! ### Two passes -/

/-- What is taken first, and what is taken of the rest to come to a greater
    number, is what that number takes at once. -/
theorem take_append_take_drop {α : Type} (xs : List α) {k n : Nat} (h : k ≤ n) :
    xs.take k ++ (xs.drop k).take (n - min k xs.length) = xs.take n := by
  rcases Nat.le_total k xs.length with hle | hle
  · rw [Nat.min_eq_left hle, ← List.take_add, Nat.add_sub_cancel' h]
  · rw [List.take_of_length_le hle, List.drop_eq_nil_of_le hle, List.take_nil, List.append_nil,
      List.take_of_length_le (Nat.le_trans hle h)]

variable {first second : Nat}

theorem padWithOrder_padWithOrder_rows (h : first ≤ second) (rows : List RankedEntry)
    (order : List String) :
    (padWithOrder second (padWithOrder first rows order).1 order).1
      = (padWithOrder second rows order).1 := by
  have hroom : first - rows.length ≤ second - rows.length := Nat.sub_le_sub_right h _
  -- the second pass has the room of a single one, less what the first pass added
  rw [padWithOrder_rows second, freshIds_padWithOrder, length_padWithOrder, ← Nat.sub_sub,
    padWithOrder_rows first, List.append_assoc, ← List.map_append, take_append_take_drop _ hroom,
    padWithOrder_rows second]

theorem padWithOrder_padWithOrder_exhausted (h : first ≤ second) (rows : List RankedEntry)
    (order : List String) :
    (padWithOrder second (padWithOrder first rows order).1 order).2.exhausted
      = (padWithOrder second rows order).2.exhausted := by
  rw [Bool.eq_iff_iff, padWithOrder_exhausted, padWithOrder_exhausted, freshIds_padWithOrder,
    length_padWithOrder, List.length_drop]
  omega

theorem padWithOrder_padWithOrder_added (h : first ≤ second) (rows : List RankedEntry)
    (order : List String) :
    (padWithOrder first rows order).2.added
        + (padWithOrder second (padWithOrder first rows order).1 order).2.added
      = (padWithOrder second rows order).2.added := by
  rw [padWithOrder_added, padWithOrder_added, padWithOrder_added, freshIds_padWithOrder,
    length_padWithOrder, List.length_drop]
  omega

/-- Padding to a target and then to a greater one with the same order gives the
    rows and the report of padding to the greater one at once, and the numbers
    of added rows add up. In particular a second pass to the same target adds
    nothing, and with a seed a topic's fillers for a smaller target are the
    first of its fillers for a greater one. -/
theorem padWithOrder_incremental (h : first ≤ second) (rows : List RankedEntry)
    (order : List String) :
    let once := padWithOrder first rows order
    let twice := padWithOrder second once.1 order
    let direct := padWithOrder second rows order
    twice.1 = direct.1 ∧
      twice.2.exhausted = direct.2.exhausted ∧
      once.2.added + twice.2.added = direct.2.added ∧
      padWithOrder first once.1 order = (once.1, ⟨0, once.2.exhausted⟩) ∧
      ∀ (pool : FillerPool) (seed : UInt64) (topic : String),
        ((Padder.mk pool first (.seeded seed)).pad topic rows).1.drop rows.length
          <+: ((Padder.mk pool second (.seeded seed)).pad topic rows).1.drop rows.length := by
  refine ⟨padWithOrder_padWithOrder_rows h rows order,
    padWithOrder_padWithOrder_exhausted h rows order,
    padWithOrder_padWithOrder_added h rows order, ?_, ?_⟩
  · have hrows := padWithOrder_padWithOrder_rows (Nat.le_refl first) rows order
    have hexhausted := padWithOrder_padWithOrder_exhausted (Nat.le_refl first) rows order
    have hadded := padWithOrder_padWithOrder_added (Nat.le_refl first) rows order
    refine Prod.ext hrows ?_
    rw [PaddingOutcome.mk.injEq]
    exact ⟨Nat.add_eq_left.1 hadded, hexhausted⟩
  · intro pool seed topic
    -- the order depends on the seed and the topic, and not on the target
    have horder : (Padder.mk pool first (.seeded seed)).orderFor topic
        = (Padder.mk pool second (.seeded seed)).orderFor topic := rfl
    rw [Padder.pad_eq, Padder.pad_eq, padWithOrder_rows, padWithOrder_rows, List.drop_left,
      List.drop_left, horder]
    exact (List.take_prefix_take_left (Nat.sub_le_sub_right h _)).map _

/-- Rows that share an id, and an order that repeats one and has the id of the
    rows: the second pass skips what the first one added. -/
theorem padWithOrder_incremental_repeated :
    let rows := [RankedEntry.ofRetrieved "a" .zero, RankedEntry.ofRetrieved "a" .zero]
    let order := ["f", "a", "f", "g", "h"]
    3 ≤ 5 ∧
      (padWithOrder 5 (padWithOrder 3 rows order).1 order).1.map (·.doc)
        = ["a", "a", "f", "g", "h"] ∧
      (padWithOrder 3 rows order).2.added
        + (padWithOrder 5 (padWithOrder 3 rows order).1 order).2.added = 3 ∧
      padWithOrder 3 (padWithOrder 3 rows order).1 order
        = ((padWithOrder 3 rows order).1, ⟨0, false⟩) := by
  intro rows order
  have hle : 3 ≤ 5 := by decide
  obtain ⟨hrows, -, hadded, hagain, -⟩ := padWithOrder_incremental hle rows order
  refine ⟨hle, ?_, hadded, hagain⟩
  rw [hrows]
  decide

end EvalRun
