import EvalRun.Proofs.Xml.Places
import EvalRun.Proofs.Xml.Scanning

/-! # Proofs.Xml.Surroundings — what is read does not depend on what is around

    A scan decides by the characters that it takes and by those that come next.
    So if a text is part of a longer one, the scan returns the same there, as
    long as something is left for it to look at. What must be left is a mark: the
    character that ends a piece of markup, `>` for tags and `;` for references.
    A scan that takes the mark last needs nothing behind it.

    `Carries` says this of one scan; it holds of one scan behind another
    (`Carries.bind`), and so of the prolog of a document (`local_prolog`), of
    every token of markup (`carries_contentToken`) and of references
    (`closing_reference`). Places are shifted by what stands before the text,
    and the fuel may be more than it was.
-/

namespace EvalRun.Xml

/-- What is put around a text. -/
structure Surroundings where
  /-- The number of characters before the text. -/
  before : Nat
  /-- The characters behind the text. -/
  behind : List Char
  /-- The character that ends a piece of markup. -/
  mark : Char
  /-- The text has fewer characters than this. -/
  size : Nat

namespace Surroundings

/-- The place of a cursor in the longer text. -/
def around (s : Surroundings) (c : Cursor) : Cursor := ⟨c.rest ++ s.behind, c.offset + s.before⟩

/-- The mark was the last character taken between two cursors. -/
def Closes (s : Surroundings) (c c' : Cursor) : Prop :=
  ∃ k, c.rest.drop k = s.mark :: c'.rest ∧ c'.offset = c.offset + (k + 1)

variable {s : Surroundings} {c c' c'' : Cursor}

theorem Closes.mark_mem (h : s.Closes c c') : s.mark ∈ c.rest := by
  obtain ⟨k, hdrop, -⟩ := h
  apply List.mem_of_mem_drop (i := k)
  rw [hdrop]
  exact List.mem_cons_self

/-- The mark itself was taken. -/
theorem Closes.length_lt (h : s.Closes c c') : c'.rest.length < c.rest.length := by
  obtain ⟨k, hdrop, -⟩ := h
  have hlength := congrArg List.length hdrop
  rw [List.length_drop, List.length_cons] at hlength
  omega

theorem Closes.of_skip {n : Nat} (h : s.Closes (c.skip n) c') : s.Closes c c' := by
  obtain ⟨k, hdrop, hoffset⟩ := h
  refine ⟨n + k, ?_, ?_⟩
  · rw [← hdrop, Cursor.skip_rest, List.drop_drop]
  · rw [hoffset, Cursor.skip_offset]
    omega

end Surroundings

/-- The token is written with a mark at its end. -/
def Token.IsMarkup : Token → Prop
  | text _ => False
  | cutTag => False
  | _ => True

namespace Scan

variable {α β : Type} {s : Surroundings} {closing : β → Prop} {g : β → β}

/-- What the first scan returns in a text, the second returns in a longer one, up to
    a change of the value. A value that is `closing` was read with the mark at its
    end; for any other one the mark must be left, or nothing come behind. -/
structure Carries (s : Surroundings) (closing : α → Prop) (g : α → α) (m m' : Scan α) : Prop where
  /-- The scan moves forward. -/
  moves : Moves m
  /-- The mark is the last character taken for a closing value. -/
  closes : ∀ {c a c'}, m c = some (a, c') → closing a → s.Closes c c'
  /-- The other scan returns the same in the longer text. -/
  carries : ∀ {c a c'}, c.rest.length < s.size → m c = some (a, c') →
    (s.behind = [] ∨ s.mark ∈ c'.rest ∨ closing a) → m' (s.around c) = some (g a, s.around c')

/-- The scan returns the same in a longer text if a mark is left behind it. -/
def Local (s : Surroundings) (m : Scan α) : Prop := Carries s (fun _ => False) id m m

/-- What comes behind a scan carries over if the scan does. -/
theorem Carries.bind {m m' : Scan α} {f f' : α → Scan β} (hm : Carries s (fun _ => False) id m m')
    (hf : ∀ a, Carries s closing g (f a) (f' a)) :
    Carries s closing g (m >>= f) (m' >>= f') where
  moves := hm.moves.bind fun a => (hf a).moves
  closes := by
    intro c b c' h hclosing
    obtain ⟨a, between, hfirst, hsecond⟩ := bind_eq_some_iff.1 h
    obtain ⟨n, rfl⟩ := hm.moves _ _ _ hfirst
    exact ((hf a).closes hsecond hclosing).of_skip
  carries := by
    intro c b c' hsize h hbehind
    obtain ⟨a, between, hfirst, hsecond⟩ := bind_eq_some_iff.1 h
    have hshorter : between.rest.length < s.size := by
      obtain ⟨n, rfl⟩ := hm.moves _ _ _ hfirst
      rw [Cursor.skip_rest, List.length_drop]
      omega
    have hbetween : s.behind = [] ∨ s.mark ∈ between.rest ∨ False := by
      rcases hbehind with hnone | hmark | hclosing
      · exact .inl hnone
      · obtain ⟨n, rfl⟩ := (hf a).moves _ _ _ hsecond
        exact .inr (.inl (List.mem_of_mem_drop hmark))
      · exact .inr (.inl ((hf a).closes hsecond hclosing).mark_mem)
    exact bind_eq_some_iff.2 ⟨a, _, hm.carries hsize hfirst hbetween,
      (hf a).carries hshorter hsecond hbehind⟩

theorem carries_pure {a b : β} (hclosing : ¬ closing a) (h : b = g a) :
    Carries s closing g (pure a) (pure b) where
  moves := moves_pure a
  closes := by
    intro c a' c' heq ha
    obtain ⟨rfl, -⟩ := pure_eq_some_iff.1 heq
    exact absurd ha hclosing
  carries := by
    intro c a' c' _ heq _
    obtain ⟨rfl, rfl⟩ := pure_eq_some_iff.1 heq
    rw [h]
    rfl

theorem local_pure (a : α) : Local s (pure a) := carries_pure id rfl

theorem carries_refuse {m' : Scan β} : Carries s closing g refuse m' where
  moves := moves_refuse
  closes := nofun
  carries := nofun

theorem Carries.ite {p : Prop} [Decidable p] {m m' k k' : Scan β} (h : Carries s closing g m m')
    (h' : Carries s closing g k k') :
    Carries s closing g (if p then m else k) (if p then m' else k') := by
  split
  · exact h
  · exact h'

/-- The scan takes nothing, and returns the same in a longer text. -/
def Stays (s : Surroundings) (g : α → α) (m m' : Scan α) : Prop :=
  ∀ c a c', m c = some (a, c') → c' = c ∧ m' (s.around c) = some (g a, s.around c)

theorem stays_pure {a b : α} {g : α → α} (h : b = g a) : Stays s g (pure a) (pure b) := by
  intro c a' c' heq
  obtain ⟨rfl, rfl⟩ := pure_eq_some_iff.1 heq
  exact ⟨rfl, by rw [h]; rfl⟩

/-- Every success of the scan ends with the mark. -/
def Closing (s : Surroundings) (m m' : Scan α) : Prop := Carries s (fun _ => True) id m m'

theorem Closing.local {m : Scan α} (hm : Closing s m m) : Local s m where
  moves := hm.moves
  closes := fun _ h => h.elim
  carries := fun hsize h _ => hm.carries hsize h (.inr (.inr trivial))

/-- What is decided behind a mark does not matter for the surroundings. -/
theorem Closing.settle {m m' : Scan α} {f f' : α → Scan β} (hm : Closing s m m')
    (hf : ∀ a, Stays s g (f a) (f' a)) : Carries s closing g (m >>= f) (m' >>= f') where
  moves := hm.moves.bind fun a c b c' h => by
    obtain ⟨rfl, -⟩ := hf a c b c' h
    exact ⟨0, c'.skip_zero.symm⟩
  closes := by
    intro c b c' h _
    obtain ⟨a, between, hfirst, hsecond⟩ := bind_eq_some_iff.1 h
    obtain ⟨rfl, -⟩ := hf a _ _ _ hsecond
    exact hm.closes hfirst trivial
  carries := by
    intro c b c' hsize h _
    obtain ⟨a, between, hfirst, hsecond⟩ := bind_eq_some_iff.1 h
    obtain ⟨rfl, hsecond'⟩ := hf a _ _ _ hsecond
    exact bind_eq_some_iff.2 ⟨a, _, hm.carries hsize hfirst (.inr (.inr trivial)), hsecond'⟩

/-! ### The scans everything is built from -/

/-- A look at what is left sees the same, whenever it does with something behind. -/
theorem local_of_looking {f : Cursor → α}
    (hf : ∀ c, s.behind = [] ∨ s.mark ∈ c.rest → f (s.around c) = f c) :
    Local s (fun c => some (f c, c)) where
  moves := moves_of_looking
  closes := fun _ h => h.elim
  carries := by
    intro c a c' _ h hbehind
    obtain ⟨rfl, rfl⟩ := Prod.mk.inj (Option.some.inj h)
    rw [or_false] at hbehind
    rw [hf c hbehind]
    rfl

theorem local_peek? : Local s peek? := by
  refine local_of_looking fun c hbehind => ?_
  cases hrest : c.rest with
  | nil => simpa [Surroundings.around, hrest] using hbehind
  | cons ch rest => simp [Surroundings.around, hrest]

theorem local_atEnd : Local s atEnd := by
  refine local_of_looking fun c hbehind => ?_
  cases hrest : c.rest with
  | nil => simpa [Surroundings.around, hrest] using hbehind
  | cons ch rest => simp [Surroundings.around, hrest]

/-- A text that is long enough decides whether a word stands at its front. -/
theorem isPrefixOf_append_of_le {word cs : List Char} (h : word.length ≤ cs.length)
    (behind : List Char) : word.isPrefixOf (cs ++ behind) = word.isPrefixOf cs := by
  rw [Bool.eq_iff_iff, List.isPrefixOf_iff_prefix, List.isPrefixOf_iff_prefix]
  constructor
  · intro hstarts
    exact List.prefix_of_prefix_length_le hstarts (List.prefix_append cs behind) h
  · intro hstarts
    exact hstarts.trans (List.prefix_append cs behind)

/-- A word that has no mark before its last character is seen or not, whatever
    comes behind a mark. -/
theorem isPrefixOf_append_of_mem {word cs : List Char} {mark : Char}
    (hword : mark ∉ word.dropLast) (hmark : mark ∈ cs) (behind : List Char) :
    word.isPrefixOf (cs ++ behind) = word.isPrefixOf cs := by
  rcases Nat.lt_or_ge cs.length word.length with hlt | hle
  · -- the text would end inside the word, and the mark stand there
    have hno : ¬ word.isPrefixOf (cs ++ behind) = true := by
      rw [List.isPrefixOf_iff_prefix]
      intro h
      obtain ⟨more, rfl⟩ := List.prefix_of_prefix_length_le (List.prefix_append cs behind) h
        (Nat.le_of_lt hlt)
      have hne : more ≠ [] := by
        rintro rfl
        simp at hlt
      rw [List.dropLast_append_of_ne_nil hne] at hword
      exact hword (List.mem_append_left _ hmark)
    have hno' : ¬ word.isPrefixOf cs = true := by
      rw [List.isPrefixOf_iff_prefix]
      intro h
      have := h.length_le
      omega
    rw [Bool.not_eq_true] at hno hno'
    rw [hno, hno']
  · exact isPrefixOf_append_of_le hle behind

/-- Whether a word stands here, the surroundings do not change. -/
theorem local_looksAt {word : String} (hword : s.mark ∉ word.toList.dropLast) :
    Local s (looksAt word) := by
  refine local_of_looking fun c hbehind => ?_
  rcases hbehind with hnone | hmark
  · simp [Surroundings.around, hnone]
  · exact isPrefixOf_append_of_mem hword hmark s.behind

theorem drop_append_of_mem {cs : List Char} {ch : Char} {n : Nat} (h : ch ∈ cs.drop n)
    (behind : List Char) : (cs ++ behind).drop n = cs.drop n ++ behind := by
  have hpos := List.length_pos_of_mem h
  rw [List.length_drop] at hpos
  rw [List.drop_append_of_le_length (by omega)]

theorem local_advance (n : Nat) : Local s (advance n) where
  moves := moves_advance n
  closes := fun _ h => h.elim
  carries := by
    intro c a c' _ h hbehind
    obtain ⟨-, rfl⟩ := Prod.mk.inj (Option.some.inj h)
    have hdrop : (c.rest ++ s.behind).drop n = c.rest.drop n ++ s.behind := by
      rcases hbehind with hnone | hmark | hno
      · simp [hnone]
      · exact drop_append_of_mem hmark s.behind
      · exact hno.elim
    simp [advance, Surroundings.around, hdrop, Nat.add_right_comm]

theorem local_takeWhile (p : Char → Bool) : Local s (takeWhile p) where
  moves := moves_takeWhile p
  closes := fun _ h => h.elim
  carries := by
    intro c a c' _ h hbehind
    obtain ⟨rfl, rfl⟩ := Prod.mk.inj (Option.some.inj h)
    rcases hbehind with hnone | hmark | hno
    · simp [takeWhile, Surroundings.around, hnone, Nat.add_right_comm]
    · -- the scan stops at a character of the text
      have hdrop : ¬ (c.rest.dropWhile p).isEmpty = true := by
        rw [List.isEmpty_iff]
        exact List.ne_nil_of_mem hmark
      have htake : ¬ (c.rest.takeWhile p).length = c.rest.length := by
        have hlength := congrArg List.length
          (List.takeWhile_append_dropWhile (p := p) (l := c.rest))
        have hpos := List.length_pos_of_mem hmark
        have hpos' : 0 < (c.rest.dropWhile p).length := hpos
        rw [List.length_append] at hlength
        omega
      simp [takeWhile, Surroundings.around, List.takeWhile_append, List.dropWhile_append, hdrop,
        htake, Nat.add_right_comm]
    · exact hno.elim

/-- A word that is found in a text is found there in a longer text. -/
theorem splitBefore_append {word cs before after : List Char}
    (h : splitBefore word cs = some (before, after)) (behind : List Char) :
    word <+: after ∧ splitBefore word (cs ++ behind) = some (before, after ++ behind) := by
  induction cs generalizing before with
  | nil => cases h
  | cons ch rest ih =>
    unfold splitBefore at h
    split at h
    · rename_i hword
      obtain ⟨rfl, rfl⟩ := Prod.mk.inj (Option.some.inj h)
      have hstarts := List.isPrefixOf_iff_prefix.1 hword
      have hlonger : word.isPrefixOf (ch :: (rest ++ behind)) = true :=
        List.isPrefixOf_iff_prefix.2 (hstarts.trans (List.prefix_append (ch :: rest) behind))
      exact ⟨hstarts, if_pos hlonger⟩
    · rename_i hword
      obtain ⟨⟨before', after'⟩, hrest, heq⟩ := Option.map_eq_some_iff.1 h
      obtain ⟨rfl, rfl⟩ := Prod.mk.inj heq
      obtain ⟨hstarts, hlonger⟩ := ih hrest
      refine ⟨hstarts, ?_⟩
      -- the word has room in the text, so what comes behind cannot complete it
      have hroom : word.length ≤ (ch :: rest).length := by
        have hlength := hstarts.length_le
        have hsplit := congrArg List.length (splitBefore_eq_some hrest)
        rw [List.length_append] at hsplit
        rw [List.length_cons]
        omega
      have hno : ¬ word.isPrefixOf (ch :: (rest ++ behind)) = true := by
        rw [← List.cons_append, isPrefixOf_append_of_le hroom]
        exact hword
      rw [List.cons_append, splitBefore, if_neg hno, hlonger]
      rfl

/-- Text up to a word that ends with the mark. -/
theorem closing_takeThrough {word : String} (start : List Char)
    (hword : word.toList = start ++ [s.mark]) :
    Closing s (takeThrough word) (takeThrough word) := by
  have htaken {c c' : Cursor} {taken : List Char} (h : takeThrough word c = some (taken, c')) :
      ∃ after, splitBefore word.toList c.rest = some (taken, word.toList ++ after) ∧
        taken.all isXmlChar = true ∧ c' = ⟨after, c.offset + taken.length + word.length⟩ := by
    unfold takeThrough at h
    simp only [Option.bind_eq_bind, Option.bind_eq_some_iff] at h
    obtain ⟨⟨before, after⟩, hsplit, h⟩ := h
    split at h
    · rename_i hchars
      obtain ⟨rfl, rfl⟩ := Prod.mk.inj (Option.some.inj h)
      obtain ⟨after, rfl⟩ := (splitBefore_append hsplit []).1
      refine ⟨after, hsplit, hchars, ?_⟩
      rw [← String.length_toList, List.drop_left]
    · cases h
  refine ⟨moves_takeThrough word, ?_, ?_⟩
  · intro c taken c' h _
    obtain ⟨after, hsplit, -, rfl⟩ := htaken h
    refine ⟨taken.length + start.length, ?_, ?_⟩
    · rw [splitBefore_eq_some hsplit, ← List.drop_drop, List.drop_left, hword, List.append_assoc,
        List.drop_left]
      rfl
    · simp [← String.length_toList, hword, Nat.add_assoc]
  · intro c taken c' _ h _
    obtain ⟨after, hsplit, hchars, rfl⟩ := htaken h
    have hlonger := (splitBefore_append hsplit s.behind).2
    unfold takeThrough Surroundings.around
    simp only [hlonger, Option.bind_eq_bind, Option.bind_some, hchars, if_true]
    rw [← String.length_toList, List.append_assoc, List.drop_left]
    simp [Nat.add_right_comm]

theorem local_expectChar (ch : Char) : Local s (expectChar ch) :=
  local_peek?.bind fun _ => (local_advance 1).ite carries_refuse

theorem local_expect {word : String} (hword : s.mark ∉ word.toList.dropLast) :
    Local s (expect word) :=
  (local_looksAt hword).bind fun _ => (local_advance _).ite carries_refuse

theorem local_skipSpaces : Local s skipSpaces :=
  (local_takeWhile isSpace).bind fun _ => local_pure ()

theorem local_requireSpaces : Local s requireSpaces :=
  (local_takeWhile isSpace).bind fun _ => Carries.ite carries_refuse (local_pure ())

theorem local_takeChars (p : Char → Bool) : Local s (takeChars p) := by
  refine (local_takeWhile p).bind fun taken => ?_
  refine Carries.ite (local_peek?.bind fun next? => ?_) carries_refuse
  cases next? with
  | none => exact local_pure taken
  | some c => exact Carries.ite (local_pure taken) carries_refuse

theorem local_quote : Local s quote := by
  refine local_peek?.bind fun next? => ?_
  cases next? with
  | none => exact carries_refuse
  | some c => exact Carries.ite ((local_advance 1).bind fun _ => local_pure c) carries_refuse

theorem local_name : Local s name := by
  refine local_peek?.bind fun next? => ?_
  cases next? with
  | none => exact carries_refuse
  | some c => exact Carries.ite (local_takeWhile isNameChar) carries_refuse

theorem local_qualifiedName : Local s qualifiedName := by
  refine (local_takeWhile isNameChar).bind fun chars => ?_
  split
  · exact Carries.ite (local_pure _) carries_refuse
  · exact Carries.ite (local_pure _) carries_refuse

/-- A mark that is expected is the last character taken. -/
theorem closing_expectChar : Closing s (expectChar s.mark) (expectChar s.mark) where
  moves := moves_expectChar s.mark
  closes := by
    intro c u c' h _
    obtain ⟨next?, between, hpeek, h⟩ := bind_eq_some_iff.1 h
    obtain ⟨rfl, rfl⟩ := Prod.mk.inj (Option.some.inj hpeek)
    split at h
    · rename_i hnext
      obtain ⟨-, rfl⟩ := Prod.mk.inj (Option.some.inj h)
      obtain ⟨rest, hrest⟩ := List.head?_eq_some_iff.1 hnext
      exact ⟨0, by simp [hrest], rfl⟩
    · cases h
  carries := by
    intro c u c' _ h _
    obtain ⟨next?, between, hpeek, h⟩ := bind_eq_some_iff.1 h
    obtain ⟨rfl, rfl⟩ := Prod.mk.inj (Option.some.inj hpeek)
    split at h
    · rename_i hnext
      obtain ⟨-, rfl⟩ := Prod.mk.inj (Option.some.inj h)
      obtain ⟨rest, hrest⟩ := List.head?_eq_some_iff.1 hnext
      refine bind_eq_some_iff.2 ⟨some s.mark, s.around c, ?_, ?_⟩
      · simp [peek?, Surroundings.around, hrest]
      · simp [advance, Surroundings.around, hrest, Nat.add_right_comm]
    · cases h

/-- A character that was seen may as well be expected. -/
theorem looksAt_advance {word : String} (ch : Char) (hword : word.toList = [ch])
    (f : Unit → Scan β) (k : Scan β) :
    (looksAt word >>= fun b => if b then advance 1 >>= f else k) =
      looksAt word >>= fun b => if b then expectChar ch >>= f else k := by
  funext c
  by_cases hseen : word.toList.isPrefixOf c.rest = true
  · have hnext : c.rest.head? = some ch := by
      rw [hword, List.isPrefixOf_iff_prefix] at hseen
      obtain ⟨rest, hrest⟩ := hseen
      simp [← hrest]
    have hexpect : expectChar ch c = advance 1 c := by
      change (if c.rest.head? = some ch then advance 1 else refuse : Scan Unit) c = _
      rw [if_pos hnext]
    change (if word.toList.isPrefixOf c.rest = true then advance 1 >>= f else k) c =
      (if word.toList.isPrefixOf c.rest = true then expectChar ch >>= f else k) c
    rw [if_pos hseen, if_pos hseen]
    change (advance 1 c).bind (fun r => f r.1 r.2) = (expectChar ch c).bind fun r => f r.1 r.2
    rw [hexpect]
  · change (if word.toList.isPrefixOf c.rest = true then advance 1 >>= f else k) c =
      (if word.toList.isPrefixOf c.rest = true then expectChar ch >>= f else k) c
    rw [if_neg hseen, if_neg hseen]

/-- The place at which a scan stands is shifted by what is before the text. -/
theorem carries_offset {f f' : Nat → Scan β}
    (hf : ∀ place, Carries s closing g (f place) (f' (place + s.before))) :
    Carries s closing g (offset >>= f) (offset >>= f') where
  moves := moves_offset.bind fun place => (hf place).moves
  closes := by
    intro c b c' h hclosing
    obtain ⟨place, between, hplace, h⟩ := bind_eq_some_iff.1 h
    obtain ⟨rfl, rfl⟩ := Prod.mk.inj (Option.some.inj hplace)
    exact (hf _).closes h hclosing
  carries := by
    intro c b c' hsize h hbehind
    obtain ⟨place, between, hplace, h⟩ := bind_eq_some_iff.1 h
    obtain ⟨rfl, rfl⟩ := Prod.mk.inj (Option.some.inj hplace)
    exact bind_eq_some_iff.2 ⟨_, _, rfl, (hf _).carries hsize h hbehind⟩

theorem stays_offset {f f' : Nat → Scan β}
    (hf : ∀ place, Stays s g (f place) (f' (place + s.before))) :
    Stays s g (offset >>= f) (offset >>= f') := by
  intro c b c' h
  obtain ⟨place, between, hplace, h⟩ := bind_eq_some_iff.1 h
  obtain ⟨rfl, rfl⟩ := Prod.mk.inj (Option.some.inj hplace)
  obtain ⟨rfl, h'⟩ := hf _ _ _ _ h
  exact ⟨rfl, bind_eq_some_iff.2 ⟨_, _, rfl, h'⟩⟩

theorem stays_ite_refuse {p : Prop} [Decidable p] {m m' : Scan β} (h : Stays s g m m') :
    Stays s g (if p then refuse else m) (if p then refuse else m') := by
  split
  · exact fun _ _ _ hrefuse => by cases hrefuse
  · exact h

/-! ### Markup -/

theorem local_equals : Local s equals :=
  local_skipSpaces.bind fun _ => (local_expectChar '=').bind fun _ => local_skipSpaces

theorem local_tagAttribute : Local s tagAttribute := by
  refine local_qualifiedName.bind fun name => ?_
  refine local_equals.bind fun _ => local_quote.bind fun mark => ?_
  refine (local_takeChars _).bind fun value => ?_
  exact (local_expectChar mark).bind fun _ => local_pure _

/-- Scans that agree on what comes next agree. -/
theorem bind_congr_at {m : Scan α} {f f' : α → Scan β} {c : Cursor}
    (h : ∀ a c', m c = some (a, c') → f a c' = f' a c') : (m >>= f) c = (m >>= f') c := by
  change (m c).bind (fun r => f r.1 r.2) = (m c).bind fun r => f' r.1 r.2
  cases hm : m c with
  | none => rfl
  | some r => exact h r.1 r.2 hm

theorem local_literal : Local s literal :=
  local_quote.bind fun mark => (local_takeWhile _).bind fun value =>
    (local_expectChar mark).bind fun _ => local_pure value

section markup

variable (hmark : s.mark = '>')
include hmark

theorem local_word {word : String} (hword : '>' ∉ word.toList.dropLast) : Local s (looksAt word) :=
  local_looksAt (hmark ▸ hword)

theorem closing_comment : Closing s comment comment := by
  refine (local_expect (by rw [hmark]; decide)).bind fun _ => ?_
  refine (closing_takeThrough "--".toList (by rw [hmark]; rfl)).settle fun content => ?_
  exact stays_ite_refuse (stays_pure rfl)

theorem closing_instruction : Closing s instruction instruction := by
  refine (local_looksAt (by rw [hmark]; decide)).bind fun _ => Carries.ite ?_ ?_
  · exact carries_refuse
  · refine (local_expect (by rw [hmark]; decide)).bind fun _ => local_name.bind fun _ => ?_
    exact (closing_takeThrough "?".toList (by rw [hmark]; rfl)).settle fun _ =>
      stays_pure rfl

omit hmark in
/-- More fuel than characters is as good as any. -/
theorem misc_eq {n n' : Nat} {c : Cursor} (h : c.rest.length < n) (h' : c.rest.length < n') :
    misc n c = misc n' c := by
  induction n generalizing n' c with
  | zero => omega
  | succ n ih =>
    cases n' with
    | zero => omega
    | succ n' =>
      unfold misc
      refine bind_congr_at fun _ c₁ hspaces => bind_congr_at fun seen c₂ hlook => ?_
      obtain ⟨k, rfl⟩ := moves_skipSpaces _ _ _ hspaces
      obtain ⟨-, rfl⟩ := Prod.mk.inj (Option.some.inj hlook)
      have hlonger : (c.skip k).rest.length ≤ c.rest.length := by simp
      -- both comments and instructions take a character at least
      have hshorter {m : Scan Unit} (hm : Closing ⟨0, [], '>', 0⟩ m m) :
          (m >>= fun _ => misc n) (c.skip k) = (m >>= fun _ => misc n') (c.skip k) := by
        refine bind_congr_at fun _ c₃ hm' => ?_
        have := (hm.closes hm' trivial).length_lt
        exact ih (by omega) (by omega)
      split
      · exact hshorter (closing_comment rfl)
      · refine bind_congr_at fun seen c₃ hlook => ?_
        obtain ⟨-, rfl⟩ := Prod.mk.inj (Option.some.inj hlook)
        split
        · exact hshorter (closing_instruction rfl)
        · rfl

theorem local_misc_same (n : Nat) : Local s (misc n) := by
  induction n with
  | zero => exact local_pure ()
  | succ n ih =>
    refine local_skipSpaces.bind fun _ => (local_word hmark (by decide)).bind fun _ => ?_
    refine Carries.ite ((closing_comment hmark).local.bind fun _ => ih) ?_
    refine (local_word hmark (by decide)).bind fun _ => ?_
    exact Carries.ite ((closing_instruction hmark).local.bind fun _ => ih) (local_pure ())

/-- White space, comments and instructions end where something else stands. -/
theorem local_misc {n n' : Nat} (hn : s.size ≤ n) (hn' : s.size ≤ n') :
    Carries s (fun _ => False) id (misc n) (misc n') where
  moves := moves_misc n
  closes := fun _ h => h.elim
  carries := by
    intro c u c' hsize h hbehind
    have hless : c.rest.length < n := by omega
    have hless' : c.rest.length < n' := by omega
    rw [misc_eq hless hless'] at h
    exact (local_misc_same hmark n').carries hsize h hbehind

theorem local_declarationSpaces : Local s declarationSpaces := by
  refine (local_takeWhile isSpace).bind fun spaces => ?_
  refine (local_looksAt (by rw [hmark]; decide)).bind fun _ => local_atEnd.bind fun _ => ?_
  exact Carries.ite carries_refuse (local_pure ())

theorem local_declaration : Local s declaration := by
  have hend : Local s (expect "?>") := local_expect (by rw [hmark]; decide)
  have hspaces := local_declarationSpaces hmark
  refine (local_advance 5).bind fun _ => hspaces.bind fun _ => ?_
  refine (local_word hmark (by decide)).bind fun _ => Carries.ite ?_ hend
  refine (local_word hmark (by decide)).bind fun _ => Carries.ite carries_refuse ?_
  refine local_tagAttribute.bind fun _ => hspaces.bind fun _ => ?_
  refine (local_word hmark (by decide)).bind fun _ => Carries.ite ?_ ?_
  · refine local_tagAttribute.bind fun _ => hspaces.bind fun _ =>
      (local_word hmark (by decide)).bind fun _ => ?_
    exact Carries.ite (local_tagAttribute.bind fun _ => local_skipSpaces.bind fun _ => hend) hend
  · refine (local_word hmark (by decide)).bind fun _ => ?_
    exact Carries.ite (local_tagAttribute.bind fun _ => local_skipSpaces.bind fun _ => hend) hend

/-! ### The document type declaration -/

theorem local_externalId : Local s externalId := by
  refine (local_word hmark (by decide)).bind fun _ => Carries.ite ?_ ?_
  · exact (local_advance 6).bind fun _ => local_requireSpaces.bind fun _ =>
      local_literal.bind fun _ => local_pure true
  · refine (local_word hmark (by decide)).bind fun _ => Carries.ite ?_ (local_pure false)
    exact (local_advance 6).bind fun _ => local_requireSpaces.bind fun _ =>
      local_literal.bind fun _ => local_requireSpaces.bind fun _ =>
      local_literal.bind fun _ => local_pure true

/-- The text of an entity keeps its place, so nothing may come before. -/
theorem local_entityDefinition (hbefore : s.before = 0) (general : Bool) :
    Local s (entityDefinition general) := by
  refine local_peek?.bind fun next? => ?_
  cases next? with
  | none => exact carries_refuse
  | some ch =>
    refine Carries.ite ?_ ((local_externalId hmark).bind fun _ => Carries.ite ?_ carries_refuse)
    · refine carries_offset fun start => local_literal.bind fun value => ?_
      rw [hbefore, Nat.add_zero]
      exact local_pure _
    · refine Carries.ite ?_ (local_pure none)
      refine local_skipSpaces.bind fun _ => (local_word hmark (by decide)).bind fun _ => ?_
      exact Carries.ite ((local_advance 5).bind fun _ => local_requireSpaces.bind fun _ =>
        local_name.bind fun _ => local_pure none) (local_pure none)

theorem local_entity (hbefore : s.before = 0) : Local s entity := by
  refine (local_expect (by rw [hmark]; decide)).bind fun _ => local_requireSpaces.bind fun _ => ?_
  refine (local_word hmark (by decide)).bind fun parameter => Carries.ite
    ((local_advance 1).bind fun _ => local_requireSpaces.bind fun _ => ?_) ?_
  all_goals
    exact local_name.bind fun name => local_requireSpaces.bind fun _ =>
      (local_entityDefinition hmark hbefore _).bind fun value? => local_skipSpaces.bind fun _ =>
      (local_expectChar _).bind fun _ => local_pure _

theorem local_internalSubset (hbefore : s.before = 0) (entities : List Entity) {n n' : Nat}
    (hn : n ≤ n') :
    Carries s (fun _ => False) id (internalSubset entities n) (internalSubset entities n') := by
  induction n generalizing n' entities with
  | zero => exact carries_refuse
  | succ n ih =>
    cases n' with
    | zero => omega
    | succ n' =>
      have hmore (entities : List Entity) := ih entities (Nat.le_of_succ_le_succ hn)
      refine local_atEnd.bind fun _ => Carries.ite (local_pure _) ?_
      refine local_skipSpaces.bind fun _ => (local_word hmark (by decide)).bind fun _ => ?_
      refine Carries.ite ((local_entity hmark hbefore).bind fun e? => ?_) ?_
      · cases e? with
        | none => exact hmore entities
        | some e => exact hmore (entities ++ [e])
      refine (local_word hmark (by decide)).bind fun _ => Carries.ite
        ((closing_comment hmark).local.bind fun _ => hmore entities) ?_
      refine (local_word hmark (by decide)).bind fun _ => Carries.ite
        ((closing_instruction hmark).local.bind fun _ => hmore entities) ?_
      refine (local_word hmark (by decide)).bind fun _ => Carries.ite
        ((local_advance 1).bind fun _ => local_skipSpaces.bind fun _ =>
          (local_expectChar _).bind fun _ => local_pure entities) ?_
      refine (local_word hmark (by decide)).bind fun _ =>
        (local_word hmark (by decide)).bind fun _ =>
        (local_word hmark (by decide)).bind fun _ => Carries.ite ?_ carries_refuse
      exact (local_takeWhile _).bind fun _ => (local_expectChar _).bind fun _ => hmore entities

theorem local_doctype (hbefore : s.before = 0) {n n' : Nat} (hn : n ≤ n') :
    Carries s (fun _ => False) id (doctype n) (doctype n') := by
  refine (local_expect (by rw [hmark]; decide)).bind fun _ => local_requireSpaces.bind fun _ =>
    local_name.bind fun _ => local_skipSpaces.bind fun _ =>
    (local_externalId hmark).bind fun _ => local_skipSpaces.bind fun _ =>
    local_peek?.bind fun next? => ?_
  cases next? with
  | none => exact carries_refuse
  | some c =>
    refine Carries.ite ((local_advance 1).bind fun _ => local_pure _) ?_
    exact Carries.ite ((local_advance 1).bind fun _ => local_internalSubset hmark hbefore [] hn)
      carries_refuse

/-! ### Content -/

/-- The attributes of a start tag end with the mark. -/
theorem closing_startTagRest (attributes : List RawAttribute) {n n' : Nat} (hn : n ≤ n') :
    Closing s (startTagRest attributes n) (startTagRest attributes n') := by
  induction n generalizing n' attributes with
  | zero => exact carries_refuse
  | succ n ih =>
    cases n' with
    | zero => omega
    | succ n' =>
      have hexpect : Closing s (expectChar '>') (expectChar '>') := hmark ▸ closing_expectChar
      refine (local_takeWhile isSpace).bind fun spaces =>
        (local_word hmark (by decide)).bind fun _ => ?_
      refine Carries.ite ((local_advance 1).bind fun _ => hexpect.settle fun _ => stays_pure rfl) ?_
      rw [looksAt_advance '>' rfl, looksAt_advance '>' rfl]
      refine (local_word hmark (by decide)).bind fun _ => Carries.ite
        (hexpect.settle fun _ => stays_pure rfl) (Carries.ite carries_refuse ?_)
      exact local_tagAttribute.bind fun a => ih (a :: attributes) (Nat.le_of_succ_le_succ hn)

/-- A start tag ends with its mark, if it ends at all. -/
theorem carries_startTag {n n' : Nat} (hn : n ≤ n') :
    Carries s Token.IsMarkup (Token.mapPlaces (· + s.before) (· + s.before)) (startTag n)
      (startTag n') := by
  refine carries_offset fun first => (local_expectChar _).bind fun _ => ?_
  refine local_qualifiedName.bind fun name => local_atEnd.bind fun _ => Carries.ite ?_ ?_
  · exact carries_pure id rfl
  · refine (closing_startTagRest hmark [] hn).settle fun rest => ?_
    exact stays_offset fun last => stays_pure rfl

/-- An end tag ends with the mark. -/
theorem carries_endTag :
    Carries s Token.IsMarkup (Token.mapPlaces (· + s.before) (· + s.before)) endTag endTag := by
  have hexpect : Closing s (expectChar '>') (expectChar '>') := hmark ▸ closing_expectChar
  refine (local_expect (by rw [hmark]; decide)).bind fun _ =>
    local_qualifiedName.bind fun name => ?_
  exact local_skipSpaces.bind fun _ => hexpect.settle fun _ =>
    stays_offset fun last => stays_pure rfl

omit hmark in
/-- Character data ends where a mark is left, if at all. -/
theorem carries_text :
    Carries s Token.IsMarkup (Token.mapPlaces (· + s.before) (· + s.before)) text text :=
  (local_takeChars _).bind fun _ => Carries.ite carries_refuse (carries_pure id rfl)

/-- A token of markup is read whatever comes behind it, any other if a mark is left. -/
theorem carries_contentToken {n n' : Nat} (hn : n ≤ n') :
    Carries s Token.IsMarkup (Token.mapPlaces (· + s.before) (· + s.before)) (contentToken n)
      (contentToken n') := by
  refine (local_word hmark (by decide)).bind fun _ => Carries.ite ?_ ?_
  · exact (closing_comment hmark).settle fun _ => stays_pure rfl
  refine (local_word hmark (by decide)).bind fun _ => Carries.ite ?_ ?_
  · exact (local_advance 9).bind fun _ =>
      (closing_takeThrough "]]".toList (by rw [hmark]; rfl)).settle fun _ =>
        stays_pure rfl
  refine (local_word hmark (by decide)).bind fun _ => Carries.ite ?_ ?_
  · exact (closing_instruction hmark).settle fun _ => stays_pure rfl
  refine (local_word hmark (by decide)).bind fun _ => Carries.ite (carries_endTag hmark) ?_
  exact (local_word hmark (by decide)).bind fun _ => Carries.ite (carries_startTag hmark hn)
    carries_text

end markup

/-- A reference ends with a semicolon. -/
theorem closing_reference (hmark : s.mark = ';') : Closing s reference reference := by
  have hexpect : Closing s (expectChar ';') (expectChar ';') := hmark ▸ closing_expectChar
  have hlook {word : String} (hword : ';' ∉ word.toList.dropLast) : Local s (looksAt word) :=
    local_looksAt (hmark ▸ hword)
  have hfound (r : Reference) : Closing s (do let r ← pure r; expectChar ';'; pure r)
      (do let r ← pure r; expectChar ';'; pure r) :=
    (local_pure r).bind fun r => hexpect.settle fun _ => stays_pure rfl
  refine (hlook (by decide)).bind fun _ => Carries.ite ?_ ?_
  · -- the base is read first, and then the number
    refine (local_advance 1).bind fun _ => (hlook (by decide)).bind fun _ =>
      Carries.ite ((local_advance 1).bind fun _ => (local_pure 16).bind fun base => ?_)
        ((local_pure 10).bind fun base => ?_)
    all_goals
      refine (local_takeWhile _).bind fun digits => Carries.ite carries_refuse ?_
      split
      · exact hfound _
      · exact carries_refuse
  · refine local_name.bind fun name => ?_
    split
    · exact hfound _
    · exact hfound _

/-! ### The document -/

/-- Takes something that begins with a word, if it stands here. -/
def optionally (word : String) (m : Scan Unit) : Scan Unit := do
  if ← looksAt word then m else pure ()

/-- Takes the document type declaration and what is read behind it, if it stands
    here: the declared entities. -/
def declared (fuel : Nat) : Scan (List Entity) := do
  if ← looksAt "<!DOCTYPE" then
    let entities ← doctype fuel
    misc fuel
    pure entities
  else pure []

/-- What is read before the root element: the declared entities. -/
def prolog (fuel : Nat) : Scan (List Entity) := do
  optionally "\uFEFF" (advance 1)
  optionally "<?xml " declaration
  misc fuel
  skipSpaces
  let entities ← declared fuel
  skipSpaces
  pure entities

/-- The root element, and what is read behind it. -/
def body (fuel : Nat) (entities : List Entity) : Scan (List Entity × List Token) := do
  let tokens ← rootElement fuel
  misc fuel
  if ← atEnd then pure (entities, tokens) else refuse

theorem ite_bind {p : Prop} [Decidable p] {m k : Scan α} {f : α → Scan β} :
    (if p then m else k) >>= f = if p then m >>= f else k >>= f := by
  split <;> rfl

theorem document_eq (fuel : Nat) : document fuel = prolog fuel >>= body fuel := by
  unfold document prolog body optionally declared
  simp only [bind_assoc, pure_bind, ite_bind]

/-- The entities are read before the root element, whatever comes behind that. -/
theorem local_prolog (hmark : s.mark = '>') (hbefore : s.before = 0) {n n' : Nat}
    (hn : s.size ≤ n) (hn' : n ≤ n') :
    Carries s (fun _ => False) id (prolog n) (prolog n') := by
  have hoptional {word : String} (hword : '>' ∉ word.toList.dropLast) {m : Scan Unit}
      (hm : Local s m) : Local s (optionally word m) :=
    (local_word hmark hword).bind fun _ => Carries.ite hm (local_pure ())
  have hmisc : Carries s (fun _ => False) id (misc n) (misc n') :=
    local_misc hmark hn (Nat.le_trans hn hn')
  refine (hoptional (by decide) (local_advance 1)).bind fun _ => ?_
  refine (hoptional (by decide) (local_declaration hmark)).bind fun _ => ?_
  refine hmisc.bind fun _ => local_skipSpaces.bind fun _ => Carries.bind ?_ fun entities =>
    local_skipSpaces.bind fun _ => local_pure entities
  refine (local_word hmark (by decide)).bind fun _ => Carries.ite ?_ (local_pure [])
  exact (local_doctype hmark hbefore hn').bind fun entities => hmisc.bind fun _ =>
    local_pure entities

end Scan
end EvalRun.Xml
