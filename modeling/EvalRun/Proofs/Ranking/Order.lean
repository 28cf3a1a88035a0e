import EvalRun.Ranking.Entry
import Mathlib.Data.List.Nodup

/-! # Proofs.Ranking.Order — the order of ranking is total

    Rows are compared by the total order of their scores and then by their
    ids. The comparison is transitive, two rows that it does not tell apart
    have one score and one id, and it never looks at ranks.

    So rows with distinct ids can be put in order in one way only
    (`mergeSort_eq_of_pairwise`), and what sorting gives is found by giving
    rows in order: the sorted rows without some of them, or the sorted rows of
    two groups of which one comes before the other.
-/

namespace EvalRun

/-- A number that is less than another comes before it in the total order. -/
theorem Binary64.totalKey_lt_of_lt {x y : Binary64} (h : x.lt y = true) :
    x.totalKey < y.totalKey := by
  simp only [lt, Bool.and_eq_true, decide_eq_true_eq] at h
  have hline := h.2
  simp only [lineKey] at hline
  simp only [totalKey]
  split_ifs at hline ⊢ <;> omega

namespace RankedEntry

instance : Std.TransCmp fun a b : RankedEntry => compare b.score.totalKey a.score.totalKey :=
  inferInstanceAs (Std.TransCmp fun a b : RankedEntry =>
    compareOn (fun e : RankedEntry => e.score.totalKey) b a)

instance : Std.TransCmp order :=
  inferInstanceAs (Std.TransCmp (compareLex
    (fun a b : RankedEntry => compare b.score.totalKey a.score.totalKey) (compareOn doc)))

/-- A row comes before another if its score is greater, or if the scores are
    the same and its id comes first. -/
theorem order_eq_lt_iff {a b : RankedEntry} :
    order a b = .lt ↔
      b.score.totalKey < a.score.totalKey ∨ a.score = b.score ∧ a.doc < b.doc := by
  have hdoc : compare a.doc b.doc = .lt ↔ a.doc < b.doc := compareOfLessAndEq_eq_lt
  unfold order
  rw [Ordering.then_eq_lt, hdoc, Int.compare_eq_lt, Int.compare_eq_eq]
  constructor
  · rintro (hlt | ⟨hkey, hlt⟩)
    · exact .inl hlt
    · exact .inr ⟨Binary64.totalKey_injective hkey.symm, hlt⟩
  · rintro (hlt | ⟨hscore, hlt⟩)
    · exact .inl hlt
    · exact .inr ⟨by rw [hscore], hlt⟩

/-- Rows that the order does not tell apart have one score and one id. -/
theorem order_eq_eq_iff {a b : RankedEntry} :
    order a b = .eq ↔ a.score = b.score ∧ a.doc = b.doc := by
  unfold order
  rw [Ordering.then_eq_eq, Int.compare_eq_eq, Std.LawfulEqOrd.compare_eq_iff_eq]
  constructor
  · rintro ⟨hkey, hdoc⟩
    exact ⟨Binary64.totalKey_injective hkey.symm, hdoc⟩
  · rintro ⟨hscore, hdoc⟩
    exact ⟨by rw [hscore], hdoc⟩

/-! ### Sorting by the order -/

theorem le_trans {a b c : RankedEntry} (hab : le a b = true) (hbc : le b c = true) :
    le a c = true := by
  simp only [le, bne_iff_ne, Ordering.ne_gt_iff_isLE] at *
  exact Std.TransCmp.isLE_trans hab hbc

theorem le_total (a b : RankedEntry) : (le a b || le b a) = true := by
  have hswap : order b a = (order a b).swap := Std.OrientedCmp.eq_swap
  unfold le
  rw [hswap]
  cases order a b <;> rfl

/-- A row that may stand before one with another id comes before it. -/
theorem order_eq_lt_of_le {a b : RankedEntry} (hle : le a b = true) (hdoc : a.doc ≠ b.doc) :
    order a b = .lt := by
  have hne : order a b ≠ .eq := fun heq => hdoc (order_eq_eq_iff.1 heq).2
  unfold le at hle
  revert hle hne
  cases order a b <;> simp

/-- Sorting rows with distinct ids puts each strictly before the next. -/
theorem pairwise_mergeSort_order {rows : List RankedEntry} (h : (rows.map (·.doc)).Nodup) :
    (rows.mergeSort le).Pairwise fun a b => order a b = .lt := by
  have hsorted : (rows.mergeSort le).Pairwise fun a b => le a b = true :=
    @List.pairwise_mergeSort _ le (fun _ _ _ => le_trans) le_total rows
  have hdistinct : ((rows.mergeSort le).map (·.doc)).Nodup :=
    ((List.mergeSort_perm rows le).map _).nodup_iff.2 h
  rw [List.Nodup, List.pairwise_map] at hdistinct
  exact (hsorted.and hdistinct).imp fun ⟨hle, hne⟩ => order_eq_lt_of_le hle hne

/-- Rows with distinct ids have one order in which each stands strictly before
    the next. -/
theorem mergeSort_eq_of_pairwise {rows sorted : List RankedEntry}
    (hdistinct : (rows.map (·.doc)).Nodup) (hperm : sorted.Perm rows)
    (hsorted : sorted.Pairwise fun a b => order a b = .lt) : rows.mergeSort le = sorted := by
  refine List.Perm.eq_of_pairwise ?_ (pairwise_mergeSort_order hdistinct) hsorted
    ((List.mergeSort_perm rows le).trans hperm.symm)
  -- no two rows stand strictly before each other
  intro a b _ _ hab hba
  have hswap : order b a = (order a b).swap := Std.OrientedCmp.eq_swap
  rw [hab, hba] at hswap
  cases hswap

/-- The order in which rows with distinct ids come is forgotten. -/
theorem mergeSort_eq_of_perm {xs ys : List RankedEntry} (hdistinct : (xs.map (·.doc)).Nodup)
    (hperm : xs.Perm ys) : xs.mergeSort le = ys.mergeSort le := by
  have hdistinct' : (ys.map (·.doc)).Nodup := (hperm.map _).nodup_iff.1 hdistinct
  exact mergeSort_eq_of_pairwise hdistinct ((List.mergeSort_perm ys le).trans hperm.symm)
    (pairwise_mergeSort_order hdistinct')

/-- Rows can be left out before sorting or afterwards. -/
theorem filter_mergeSort {rows : List RankedEntry} (hdistinct : (rows.map (·.doc)).Nodup)
    (keep : RankedEntry → Bool) :
    (rows.mergeSort le).filter keep = (rows.filter keep).mergeSort le := by
  have hdistinct' : ((rows.filter keep).map (·.doc)).Nodup :=
    hdistinct.sublist (List.filter_sublist.map _)
  exact (mergeSort_eq_of_pairwise hdistinct' ((List.mergeSort_perm rows le).filter keep)
    ((pairwise_mergeSort_order hdistinct).filter keep)).symm

/-- Two groups of rows of which one comes before the other are sorted one by
    one. -/
theorem mergeSort_append {front back : List RankedEntry}
    (hdistinct : ((front ++ back).map (·.doc)).Nodup)
    (hbefore : ∀ a ∈ front, ∀ b ∈ back, order a b = .lt) :
    (front ++ back).mergeSort le = front.mergeSort le ++ back.mergeSort le := by
  have hparts := hdistinct
  rw [List.map_append] at hparts
  apply mergeSort_eq_of_pairwise hdistinct
  · exact (List.mergeSort_perm front le).append (List.mergeSort_perm back le)
  · refine List.pairwise_append.2 ⟨pairwise_mergeSort_order hparts.of_append_left,
      pairwise_mergeSort_order hparts.of_append_right, fun a ha b hb => ?_⟩
    exact hbefore a (List.mem_mergeSort.1 ha) b (List.mem_mergeSort.1 hb)

end RankedEntry

end EvalRun
