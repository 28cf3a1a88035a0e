/-! # OrderedMap — finite maps from text, in the order of their keys

    A map is a list of entries in strictly ascending order of their keys, and
    the order is part of the type. So a map has one representation, its entries
    come out sorted, and two maps with the same look-ups are equal.
-/

namespace EvalRun

/-- A finite map from texts. -/
structure OrderedMap (α : Type) where
  /-- The keys with their values. -/
  entries : List (String × α)
  /-- Keys ascend. -/
  ascending : entries.Pairwise fun a b => a.1 < b.1

namespace OrderedMap

variable {α : Type}

/-- The map without entries. -/
def empty : OrderedMap α := ⟨[], .nil⟩

instance : Inhabited (OrderedMap α) := ⟨empty⟩

instance [DecidableEq α] : DecidableEq (OrderedMap α) := fun a b =>
  decidable_of_iff (a.entries = b.entries)
    ⟨fun h => by cases a; cases b; cases h; rfl, fun h => h ▸ rfl⟩

/-- The value of a key. -/
def get? (m : OrderedMap α) (key : String) : Option α := m.entries.lookup key

/-- The key has a value. -/
def contains (m : OrderedMap α) (key : String) : Bool := (m.get? key).isSome

/-- The number of keys. -/
def size (m : OrderedMap α) : Nat := m.entries.length

/-- The map has no entries. -/
def isEmpty (m : OrderedMap α) : Bool := m.entries.isEmpty

/-! ### Changing the value of a key -/

/-- Entries with the value of one key changed; a new key takes its place in
    the order. -/
def alterEntries (key : String) (change : Option α → α) :
    List (String × α) → List (String × α)
  | [] => [(key, change none)]
  | (other, value) :: rest =>
    if key = other then (other, change (some value)) :: rest
    else if key < other then (key, change none) :: (other, value) :: rest
    else (other, value) :: alterEntries key change rest

theorem fst_of_mem_alterEntries {key : String} {change : Option α → α}
    {l : List (String × α)} {e : String × α} (h : e ∈ alterEntries key change l) :
    e.1 = key ∨ ∃ e' ∈ l, e.1 = e'.1 := by
  induction l with
  | nil =>
    simp only [alterEntries, List.mem_singleton] at h
    exact .inl (by rw [h])
  | cons head rest ih =>
    simp only [alterEntries] at h
    split at h
    · rcases List.mem_cons.1 h with rfl | h
      · exact .inr ⟨head, by simp, rfl⟩
      · exact .inr ⟨e, by simp [h], rfl⟩
    · split at h
      · rcases List.mem_cons.1 h with rfl | h
        · exact .inl rfl
        · exact .inr ⟨e, h, rfl⟩
      · rcases List.mem_cons.1 h with rfl | h
        · exact .inr ⟨head, by simp, rfl⟩
        · rcases ih h with h | ⟨e', he', h⟩
          · exact .inl h
          · exact .inr ⟨e', by simp [he'], h⟩

theorem ascending_alterEntries (key : String) (change : Option α → α)
    {l : List (String × α)} (h : l.Pairwise fun a b => a.1 < b.1) :
    (alterEntries key change l).Pairwise fun a b => a.1 < b.1 := by
  induction l with
  | nil => simp [alterEntries]
  | cons head rest ih =>
    have hrest := List.pairwise_cons.1 h
    simp only [alterEntries]
    split
    · exact List.pairwise_cons.2 ⟨hrest.1, hrest.2⟩
    · split
      · refine List.pairwise_cons.2 ⟨fun e he => ?_, h⟩
        rcases List.mem_cons.1 he with rfl | he
        · assumption
        · exact String.lt_trans ‹_› (hrest.1 e he)
      · refine List.pairwise_cons.2 ⟨fun e he => ?_, ih hrest.2⟩
        rcases fst_of_mem_alterEntries he with he | ⟨e', he', h'⟩
        · rw [he]
          exact Std.lt_of_le_of_ne (String.not_lt.1 ‹_›) (Ne.symm ‹_›)
        · rw [h']
          exact hrest.1 e' he'

/-- The map with the value of one key changed. The change sees the value the
    key has now, if any. -/
def alter (m : OrderedMap α) (key : String) (change : Option α → α) : OrderedMap α :=
  ⟨alterEntries key change m.entries, ascending_alterEntries key change m.ascending⟩

/-! ### Removing a key -/

/-- The map without one key. -/
def erase (m : OrderedMap α) (key : String) : OrderedMap α :=
  ⟨m.entries.filter fun e => e.1 ≠ key, m.ascending.filter _⟩

/-! ### Look-ups -/

theorem lookup_cons_ite (key name : String) (value : α) (rest : List (String × α)) :
    ((name, value) :: rest).lookup key = if key = name then some value else rest.lookup key := by
  by_cases h : key = name
  · simp [h]
  · simp [List.lookup_cons, h, beq_eq_false_iff_ne.2 h]

/-- A key below every key of a list has no value in it. -/
theorem lookup_eq_none_of_lt {key : String} {l : List (String × α)}
    (h : ∀ e ∈ l, key < e.1) : l.lookup key = none := by
  induction l with
  | nil => rfl
  | cons head rest ih =>
    obtain ⟨name, value⟩ := head
    have hlt : key < name := h (name, value) (by simp)
    rw [lookup_cons_ite, if_neg (fun heq => String.lt_irrefl _ (heq ▸ hlt))]
    exact ih fun e he => h e (by simp [he])

theorem lookup_alterEntries (key other : String) (change : Option α → α)
    {l : List (String × α)} (h : l.Pairwise fun a b => a.1 < b.1) :
    (alterEntries key change l).lookup other =
      if other = key then some (change (l.lookup key)) else l.lookup other := by
  induction l with
  | nil => simp only [alterEntries, lookup_cons_ite]; rfl
  | cons head rest ih =>
    obtain ⟨name, value⟩ := head
    have hrest := List.pairwise_cons.1 h
    simp only [alterEntries]
    split
    · rename_i heq
      subst heq
      simp only [lookup_cons_ite, if_true]
      split <;> rfl
    · rename_i hne
      split
      · rename_i hlt
        have habsent : ((name, value) :: rest).lookup key = none :=
          lookup_eq_none_of_lt fun e he => by
            rcases List.mem_cons.1 he with rfl | he
            · exact hlt
            · exact String.lt_trans hlt (hrest.1 e he)
        rw [habsent, lookup_cons_ite other key]
      · rw [lookup_cons_ite, ih hrest.2]
        simp only [lookup_cons_ite, if_neg hne]
        by_cases hk : other = name
        · simp [hk, Ne.symm hne]
        · simp [hk]

/-- A changed key has its new value and every other key the old one. -/
theorem get?_alter (m : OrderedMap α) (key other : String) (change : Option α → α) :
    (m.alter key change).get? other =
      if other = key then some (change (m.get? key)) else m.get? other :=
  lookup_alterEntries key other change m.ascending

theorem lookup_filter_ne (key other : String) (l : List (String × α)) :
    (l.filter fun e => e.1 ≠ key).lookup other =
      if other = key then none else l.lookup other := by
  induction l with
  | nil => simp
  | cons head rest ih =>
    obtain ⟨name, value⟩ := head
    by_cases hn : name = key
    · simp only [List.filter_cons, hn, ne_eq, not_true_eq_false, decide_false, ih, lookup_cons_ite,
        Bool.false_eq_true, if_false]
      split <;> rfl
    · simp only [List.filter_cons, ne_eq, hn, not_false_eq_true, decide_true, if_true,
        lookup_cons_ite, ih]
      by_cases hk : other = name
      · simp [hk, hn]
      · simp [hk]

/-- A removed key has no value and every other key keeps its own. -/
theorem get?_erase (m : OrderedMap α) (key other : String) :
    (m.erase key).get? other = if other = key then none else m.get? other :=
  lookup_filter_ne key other m.entries

@[simp] theorem get?_empty (key : String) : (empty : OrderedMap α).get? key = none := rfl

theorem contains_iff {m : OrderedMap α} {key : String} :
    m.contains key = true ↔ ∃ value, m.get? key = some value := by
  unfold contains
  exact Option.isSome_iff_exists

theorem not_contains_iff {m : OrderedMap α} {key : String} :
    m.contains key = false ↔ m.get? key = none := by
  unfold contains
  exact Option.isSome_eq_false_iff.trans Option.isNone_iff_eq_none

/-! ### Entries and look-ups -/

theorem mem_iff_lookup_eq_some {l : List (String × α)} {key : String} {value : α}
    (h : l.Pairwise fun a b => a.1 < b.1) :
    (key, value) ∈ l ↔ l.lookup key = some value := by
  induction l with
  | nil => simp
  | cons head rest ih =>
    obtain ⟨name, stored⟩ := head
    have hrest := List.pairwise_cons.1 h
    rw [lookup_cons_ite, List.mem_cons, ih hrest.2]
    by_cases hk : key = name
    · -- further down the keys are greater, so the key is found at the head only
      subst hk
      have habsent : rest.lookup key = none := lookup_eq_none_of_lt hrest.1
      simp [habsent, eq_comm]
    · simp [hk]

/-- The entries are the keys with their values. -/
theorem mem_entries {m : OrderedMap α} {key : String} {value : α} :
    (key, value) ∈ m.entries ↔ m.get? key = some value :=
  mem_iff_lookup_eq_some m.ascending

theorem pairwise_keys_ne (m : OrderedMap α) : m.entries.Pairwise fun a b => a.1 ≠ b.1 := by
  apply m.ascending.imp
  intro a b hlt heq
  rw [heq] at hlt
  exact String.lt_irrefl _ hlt

/-- No key occurs twice. -/
theorem nodup_keys (m : OrderedMap α) : (m.entries.map (·.1)).Nodup :=
  List.pairwise_map.2 m.pairwise_keys_ne

/-- Maps with the same look-ups are equal. -/
theorem ext_get? {a b : OrderedMap α} (h : ∀ key, a.get? key = b.get? key) : a = b := by
  have nodup (m : OrderedMap α) : m.entries.Nodup :=
    m.pairwise_keys_ne.imp fun hne heq => hne (congrArg Prod.fst heq)
  have hperm : a.entries.Perm b.entries := by
    rw [List.perm_ext_iff_of_nodup (nodup a) (nodup b)]
    rintro ⟨key, value⟩
    rw [mem_entries, mem_entries, h]
  have hentries : a.entries = b.entries := by
    refine List.Perm.eq_of_pairwise ?_ a.ascending b.ascending hperm
    intro x y _ _ hxy hyx
    exact absurd (String.lt_trans hxy hyx) (String.lt_irrefl _)
  obtain ⟨_, _⟩ := a
  obtain ⟨_, _⟩ := b
  cases hentries
  rfl

end OrderedMap

end EvalRun
