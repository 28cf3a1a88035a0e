import EvalRun.Proofs.Ranking.Order
import EvalRun.Ranking.Ranker

/-! # Proofs.Ranking.Ranker — what sorting, cutting and numbering keep

    A ranking holds the given rows and no others, up to their ranks. With
    distinct ids, its rows stand strictly in order, and a row that was cut off
    comes after all of them.

    Numbering changes nothing but ranks. So whatever does not look at ranks is
    the same before and after it (`map_number`), and the facts about numbered
    rows below are facts about the sorted rows.
-/

namespace EvalRun.Ranker

variable {r : Ranker} {topic : String} {rows : List RankedEntry} {exhausted : Bool}

/-! ### Numbering -/

@[simp] theorem length_number (first : Nat) (rows : List RankedEntry) :
    (number first rows).length = rows.length := by
  induction rows generalizing first with
  | nil => rfl
  | cons e rest ih => simp [number, ih]

/-- What does not look at ranks is the same after numbering. -/
theorem map_number {β : Type} {f : RankedEntry → β} (hf : ∀ e rank, f { e with rank } = f e)
    (first : Nat) (rows : List RankedEntry) : (number first rows).map f = rows.map f := by
  induction rows generalizing first with
  | nil => rfl
  | cons e rest ih => simp [number, hf, ih]

/-- What does not look at ranks picks the same rows after numbering. -/
theorem map_filter_number {β : Type} {f : RankedEntry → β} {keep : RankedEntry → Bool}
    (hf : ∀ e rank, f { e with rank } = f e) (hkeep : ∀ e rank, keep { e with rank } = keep e)
    (first : Nat) (rows : List RankedEntry) :
    ((number first rows).filter keep).map f = (rows.filter keep).map f := by
  induction rows generalizing first with
  | nil => rfl
  | cons e rest ih =>
    rw [number, List.filter_cons, List.filter_cons, hkeep]
    split
    · rw [List.map_cons, List.map_cons, hf, ih]
    · exact ih _

theorem number_append (first : Nat) (front back : List RankedEntry) :
    number first (front ++ back)
      = number first front ++ number (first + front.length) back := by
  induction front generalizing first with
  | nil => rfl
  | cons e rest ih =>
    rw [List.cons_append, number, number, ih, List.cons_append, List.length_cons,
      Nat.add_assoc, Nat.add_comm 1]

/-- Cutting before numbering or afterwards is the same. -/
theorem take_number (first n : Nat) (rows : List RankedEntry) :
    (number first rows).take n = number first (rows.take n) := by
  induction rows generalizing first n with
  | nil => simp [number]
  | cons e rest ih =>
    cases n with
    | zero => rfl
    | succ n => rw [number, List.take_succ_cons, List.take_succ_cons, number, ih]

/-- The ranks count up from the first. -/
theorem map_rank_number (first : Nat) (rows : List RankedEntry) :
    (number first rows).map (·.rank) = List.range' first rows.length := by
  induction rows generalizing first with
  | nil => rfl
  | cons e rest ih => simp [number, ih, List.range'_succ]

/-- A numbered row is a row with some rank. -/
theorem exists_of_mem_number {first : Nat} {rows : List RankedEntry} {e : RankedEntry}
    (h : e ∈ number first rows) : ∃ row ∈ rows, e = { row with rank := e.rank } := by
  induction rows generalizing first with
  | nil => cases h
  | cons row rest ih =>
    rcases List.mem_cons.1 h with rfl | h
    · exact ⟨row, List.mem_cons_self, rfl⟩
    · obtain ⟨row', hmem, heq⟩ := ih h
      exact ⟨row', List.mem_cons_of_mem _ hmem, heq⟩

/-! ### Rankings -/

theorem truncated_rank :
    (r.rank topic rows exhausted).truncated = true ↔ r.maxDepth < rows.length :=
  decide_eq_true_iff

theorem length_rank :
    (r.rank topic rows exhausted).entries.length = min r.maxDepth rows.length := by
  simp [rank]

theorem map_rank_rank :
    (r.rank topic rows exhausted).entries.map (·.rank)
      = List.range' 1 (r.rank topic rows exhausted).entries.length := by
  simp only [rank, map_rank_number, length_number]

/-- The rows of a ranking, as far as ranks do not matter. -/
theorem map_entries_rank {β : Type} {f : RankedEntry → β}
    (hf : ∀ e rank, f { e with rank } = f e) :
    (r.rank topic rows exhausted).entries.map f
      = ((rows.mergeSort RankedEntry.le).take r.maxDepth).map f :=
  map_number hf 1 _

/-- A row of a ranking is one of the given rows with a rank. -/
theorem exists_of_mem_rank {e : RankedEntry} (h : e ∈ (r.rank topic rows exhausted).entries) :
    ∃ row ∈ rows, e = { row with rank := e.rank } := by
  obtain ⟨row, hrow, heq⟩ := exists_of_mem_number h
  exact ⟨row, List.mem_mergeSort.1 (List.mem_of_mem_take hrow), heq⟩

/-- Distinct ids stay distinct. -/
theorem nodup_doc_rank (h : (rows.map (·.doc)).Nodup) :
    ((r.rank topic rows exhausted).entries.map (·.doc)).Nodup := by
  rw [map_entries_rank fun _ _ => rfl]
  have hsorted : ((rows.mergeSort RankedEntry.le).map (·.doc)).Nodup :=
    ((List.mergeSort_perm rows _).map _).nodup_iff.2 h
  exact hsorted.sublist ((List.take_sublist _ _).map _)

/-- With distinct ids the rows stand strictly in order. -/
theorem pairwise_rank (h : (rows.map (·.doc)).Nodup) :
    (r.rank topic rows exhausted).entries.Pairwise fun a b => RankedEntry.order a b = .lt := by
  -- both sides of a comparison may forget their ranks
  have hcut : (((rows.mergeSort RankedEntry.le).take r.maxDepth).map
      fun e => { e with rank := 0 }).Pairwise fun a b => RankedEntry.order a b = .lt :=
    List.pairwise_map.2 ((RankedEntry.pairwise_mergeSort_order h).sublist (List.take_sublist _ _))
  rw [← map_entries_rank fun _ _ => rfl] at hcut
  exact List.pairwise_map.1 hcut

/-- With distinct ids, a row that was cut off comes after every row of the
    ranking. -/
theorem order_eq_lt_of_not_mem_rank (h : (rows.map (·.doc)).Nodup) {row : RankedEntry}
    (hrow : row ∈ rows)
    (habsent : row.doc ∉ (r.rank topic rows exhausted).entries.map (·.doc)) {e : RankedEntry}
    (he : e ∈ (r.rank topic rows exhausted).entries) : RankedEntry.order e row = .lt := by
  rw [map_entries_rank fun _ _ => rfl] at habsent
  obtain ⟨kept, hkept, heq⟩ := exists_of_mem_number he
  have hsorted := RankedEntry.pairwise_mergeSort_order h
  rw [← List.take_append_drop r.maxDepth (rows.mergeSort RankedEntry.le),
    List.pairwise_append] at hsorted
  have hdropped : row ∈ (rows.mergeSort RankedEntry.le).drop r.maxDepth := by
    have hmem : row ∈ (rows.mergeSort RankedEntry.le).take r.maxDepth
        ++ (rows.mergeSort RankedEntry.le).drop r.maxDepth := by
      rw [List.take_append_drop]
      exact List.mem_mergeSort.2 hrow
    rcases List.mem_append.1 hmem with hmem | hmem
    · exact absurd (List.mem_map_of_mem hmem) habsent
    · exact hmem
  rw [heq]
  exact hsorted.2.2 kept hkept row hdropped

end EvalRun.Ranker
