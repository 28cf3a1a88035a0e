import EvalRun.Text.Blank
import Mathlib.Data.List.DropRight

/-! # Proofs.Text.Trimming — what trimming leaves of a text

    Trimming drops the white space at both ends. What is left is the one inner
    text with white space around it that neither begins nor ends with white
    space (`isTrimmed_iff`), and nothing is left exactly of white space
    (`trimBlank_eq_nil_iff`).
-/

namespace EvalRun.Text

/-- The text is the inner text with white space around it, and the inner text
    neither begins nor ends with white space. -/
structure IsTrimmed (text inner : List Char) : Prop where
  /-- What is around is white space. -/
  around : ∃ before after, text = before ++ inner ++ after ∧
    (∀ c ∈ before, isBlank c = true) ∧ ∀ c ∈ after, isBlank c = true
  /-- The first character is none. -/
  head_not_blank : ∀ c ∈ inner.head?, isBlank c = false
  /-- The last character is none. -/
  last_not_blank : ∀ c ∈ inner.getLast?, isBlank c = false

/-- Trimming drops white space at the end after that at the beginning. -/
theorem trimBlank_eq_rdropWhile (cs : List Char) :
    trimBlank cs = (cs.dropWhile isBlank).rdropWhile isBlank := rfl

/-- White space before a text is dropped. -/
theorem dropWhile_isBlank_append {before cs : List Char}
    (hbefore : ∀ c ∈ before, isBlank c = true) (hcs : ∀ c ∈ cs.head?, isBlank c = false) :
    (before ++ cs).dropWhile isBlank = cs := by
  rw [List.dropWhile_append_of_pos hbefore]
  cases cs with
  | nil => rfl
  | cons c rest => rw [List.dropWhile_cons_of_neg (by simp [hcs c rfl])]

/-- Trimming gives the one text that is trimmed. -/
theorem isTrimmed_iff {text inner : List Char} :
    IsTrimmed text inner ↔ inner = trimBlank text := by
  constructor
  · rintro ⟨⟨before, after, rfl, hbefore, hafter⟩, hhead, hlast⟩
    rw [trimBlank_eq_rdropWhile, List.append_assoc]
    cases inner with
    | nil =>
      have hblank : ∀ c ∈ before ++ ([] ++ after), isBlank c = true := by
        simpa [or_imp, forall_and] using And.intro hbefore hafter
      rw [List.dropWhile_eq_nil_iff.2 hblank, List.rdropWhile_nil]
    | cons c rest =>
      rw [dropWhile_isBlank_append hbefore (by simpa using hhead), List.rdropWhile,
        List.reverse_append, dropWhile_isBlank_append (by simpa using hafter),
        List.reverse_reverse]
      rw [List.head?_reverse]
      exact hlast
  · rintro rfl
    rw [trimBlank_eq_rdropWhile]
    refine ⟨⟨text.takeWhile isBlank, (text.dropWhile isBlank).rtakeWhile isBlank, ?_, ?_, ?_⟩,
      ?_, ?_⟩
    · rw [List.append_assoc, List.rdropWhile, List.rtakeWhile, ← List.reverse_append,
        List.takeWhile_append_dropWhile, List.reverse_reverse, List.takeWhile_append_dropWhile]
    · intro c hc
      exact List.mem_takeWhile_imp hc
    · intro c hc
      exact List.mem_rtakeWhile_imp hc
    · intro c hc
      have hfirst : (text.dropWhile isBlank).head? = some c := by
        obtain ⟨after, hafter⟩ := List.rdropWhile_prefix isBlank (text.dropWhile isBlank)
        rw [← hafter, List.head?_append, hc]
        rfl
      simpa [hfirst] using List.head?_dropWhile_not isBlank text
    · intro c hc
      have hne : (text.dropWhile isBlank).rdropWhile isBlank ≠ [] := by
        rintro h
        rw [h] at hc
        cases hc
      have hlast := List.rdropWhile_last_not isBlank (text.dropWhile isBlank) hne
      rw [List.getLast?_eq_some_getLast hne, Option.mem_some_iff] at hc
      rw [← hc]
      simpa using hlast

/-- Nothing is left exactly of a text of white space. -/
theorem trimBlank_eq_nil_iff (cs : List Char) :
    trimBlank cs = [] ↔ ∀ c ∈ cs, isBlank c = true := by
  constructor
  · intro h
    obtain ⟨⟨before, after, hcs, hbefore, hafter⟩, -, -⟩ := isTrimmed_iff.2 h.symm
    subst hcs
    simpa [or_imp, forall_and] using And.intro hbefore hafter
  · intro h
    rw [trimBlank_eq_rdropWhile, List.dropWhile_eq_nil_iff.2 h, List.rdropWhile_nil]

end EvalRun.Text
