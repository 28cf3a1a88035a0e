import EvalRun.Xml.Token

/-! # Proofs.Xml.Scanning — scans move forward

    A scan takes characters from the front of what is left, and nothing else:
    behind it the cursor is a number of characters further on (`Moves`). This
    holds of the scans everything is built from, of one scan behind another,
    and so of every scan of a document.
-/

namespace EvalRun.Xml

/-- The cursor a number of characters further on. -/
def Cursor.skip (c : Cursor) (n : Nat) : Cursor := ⟨c.rest.drop n, c.offset + n⟩

@[simp] theorem Cursor.skip_offset (c : Cursor) (n : Nat) : (c.skip n).offset = c.offset + n := rfl

@[simp] theorem Cursor.skip_rest (c : Cursor) (n : Nat) : (c.skip n).rest = c.rest.drop n := rfl

theorem Cursor.skip_zero (c : Cursor) : c.skip 0 = c := by
  simp [skip]

theorem Cursor.skip_skip (c : Cursor) (n m : Nat) : (c.skip n).skip m = c.skip (n + m) := by
  simp [skip, Nat.add_assoc, List.drop_drop]

namespace Scan

variable {α β : Type}

/-- Whenever the scan succeeds, its cursor has moved forward. -/
def Moves (m : Scan α) : Prop := ∀ c a c', m c = some (a, c') → ∃ n, c' = c.skip n

/-! ### Scans put together -/

theorem bind_eq_some_iff {m : Scan α} {f : α → Scan β} {c c' : Cursor} {b : β} :
    (m >>= f) c = some (b, c') ↔ ∃ a between, m c = some (a, between) ∧
      f a between = some (b, c') := by
  change (m c).bind (fun r => f r.1 r.2) = some (b, c') ↔ _
  simp [Option.bind_eq_some_iff]

theorem pure_eq_some_iff {a b : α} {c c' : Cursor} :
    (pure a : Scan α) c = some (b, c') ↔ a = b ∧ c = c' := by
  change some (a, c) = some (b, c') ↔ _
  simp

theorem moves_pure (a : α) : Moves (pure a) := by
  intro c b c' h
  obtain ⟨-, rfl⟩ := pure_eq_some_iff.1 h
  exact ⟨0, c.skip_zero.symm⟩

theorem moves_refuse : Moves (refuse : Scan α) := by
  intro c a c' h
  cases h

/-- One scan behind another moves as far as both together. -/
theorem Moves.bind {m : Scan α} {f : α → Scan β} (hm : Moves m) (hf : ∀ a, Moves (f a)) :
    Moves (m >>= f) := by
  intro c b c' h
  obtain ⟨a, between, hfirst, hsecond⟩ := bind_eq_some_iff.1 h
  obtain ⟨n, rfl⟩ := hm c a between hfirst
  obtain ⟨k, rfl⟩ := hf a _ b c' hsecond
  exact ⟨n + k, c.skip_skip n k⟩

theorem Moves.ite {p : Prop} [Decidable p] {m m' : Scan α} (h : Moves m) (h' : Moves m') :
    Moves (if p then m else m') := by
  split
  · exact h
  · exact h'

/-- What is taken on a condition may be left out. -/
theorem Moves.optional {p : Prop} [Decidable p] {m : Scan Unit} {rest : Unit → Scan α}
    (hm : Moves m) (hrest : ∀ u, Moves (rest u)) :
    Moves (if p then m >>= rest else rest ()) :=
  (hm.bind hrest).ite (hrest ())

/-! ### The scans everything is built from -/

/-- A scan that only looks leaves the cursor where it is. -/
theorem moves_of_looking {f : Cursor → α} : Moves (fun c => some (f c, c)) := by
  intro c a c' h
  obtain ⟨-, rfl⟩ := Prod.mk.inj (Option.some.inj h)
  exact ⟨0, c.skip_zero.symm⟩

theorem moves_peek? : Moves peek? := moves_of_looking

theorem moves_atEnd : Moves atEnd := moves_of_looking

theorem moves_looksAt (word : String) : Moves (looksAt word) := moves_of_looking

theorem moves_offset : Moves offset := moves_of_looking

theorem moves_advance (n : Nat) : Moves (advance n) := by
  intro c a c' h
  obtain ⟨-, rfl⟩ := Prod.mk.inj (Option.some.inj h)
  exact ⟨n, rfl⟩

theorem moves_takeWhile (p : Char → Bool) : Moves (takeWhile p) := by
  intro c a c' h
  obtain ⟨-, rfl⟩ := Prod.mk.inj (Option.some.inj h)
  refine ⟨(c.rest.takeWhile p).length, ?_⟩
  have hdrop : (c.rest.takeWhile p ++ c.rest.dropWhile p).drop (c.rest.takeWhile p).length =
      c.rest.dropWhile p := List.drop_left
  rw [List.takeWhile_append_dropWhile] at hdrop
  rw [Cursor.skip, hdrop]

/-- A text is cut before a word, and keeps all its characters. -/
theorem splitBefore_eq_some {word cs before after : List Char}
    (h : splitBefore word cs = some (before, after)) : cs = before ++ after := by
  induction cs generalizing before with
  | nil => cases h
  | cons c rest ih =>
    unfold splitBefore at h
    split at h
    · obtain ⟨rfl, rfl⟩ := Prod.mk.inj (Option.some.inj h)
      rfl
    · obtain ⟨⟨before', after'⟩, hrest, heq⟩ := Option.map_eq_some_iff.1 h
      obtain ⟨rfl, rfl⟩ := Prod.mk.inj heq
      rw [ih hrest, List.cons_append]

theorem moves_takeThrough (word : String) : Moves (takeThrough word) := by
  intro c a c' h
  unfold takeThrough at h
  simp only [Option.bind_eq_bind, Option.bind_eq_some_iff] at h
  obtain ⟨⟨before, after⟩, hsplit, h⟩ := h
  split at h
  · obtain ⟨-, rfl⟩ := Prod.mk.inj (Option.some.inj h)
    refine ⟨before.length + word.length, ?_⟩
    rw [Cursor.skip, splitBefore_eq_some hsplit, ← List.drop_drop, List.drop_left, Nat.add_assoc]
  · cases h

theorem moves_expect (word : String) : Moves (expect word) :=
  (moves_looksAt word).bind fun _ => (moves_advance _).ite moves_refuse

theorem moves_expectChar (c : Char) : Moves (expectChar c) :=
  moves_peek?.bind fun _ => (moves_advance 1).ite moves_refuse

theorem moves_skipSpaces : Moves skipSpaces :=
  (moves_takeWhile isSpace).bind fun _ => moves_pure ()

theorem moves_requireSpaces : Moves requireSpaces :=
  (moves_takeWhile isSpace).bind fun _ => moves_refuse.ite (moves_pure ())

theorem moves_takeChars (p : Char → Bool) : Moves (takeChars p) := by
  refine (moves_takeWhile p).bind fun taken => ?_
  refine Moves.ite (moves_peek?.bind fun next? => ?_) moves_refuse
  cases next? with
  | none => exact moves_pure taken
  | some c => exact (moves_pure taken).ite moves_refuse

theorem moves_quote : Moves quote := by
  refine moves_peek?.bind fun next? => ?_
  cases next? with
  | none => exact moves_refuse
  | some c => exact Moves.ite ((moves_advance 1).bind fun _ => moves_pure c) moves_refuse

/-! ### Names, attributes and what carries nothing -/

theorem moves_name : Moves name := by
  refine moves_peek?.bind fun next? => ?_
  cases next? with
  | none => exact moves_refuse
  | some c => exact (moves_takeWhile isNameChar).ite moves_refuse

theorem moves_qualifiedName : Moves qualifiedName := by
  refine (moves_takeWhile isNameChar).bind fun chars => ?_
  split
  · exact (moves_pure _).ite moves_refuse
  · exact (moves_pure _).ite moves_refuse

theorem moves_equals : Moves equals :=
  moves_skipSpaces.bind fun _ => (moves_expectChar '=').bind fun _ => moves_skipSpaces

theorem moves_tagAttribute : Moves tagAttribute := by
  refine moves_qualifiedName.bind fun name => ?_
  refine moves_equals.bind fun _ => moves_quote.bind fun mark => ?_
  refine (moves_takeChars _).bind fun value => ?_
  exact (moves_expectChar mark).bind fun _ => moves_pure _

theorem moves_comment : Moves comment := by
  refine (moves_expect _).bind fun _ => (moves_takeThrough _).bind fun content => ?_
  exact moves_refuse.ite (moves_pure ())

theorem moves_instruction : Moves instruction :=
  (moves_looksAt _).bind fun _ => moves_refuse.optional fun _ => (moves_expect _).bind fun _ =>
    moves_name.bind fun _ => (moves_takeThrough _).bind fun _ => moves_pure ()

theorem moves_misc (fuel : Nat) : Moves (misc fuel) := by
  induction fuel with
  | zero => exact moves_pure ()
  | succ fuel ih =>
    refine moves_skipSpaces.bind fun _ => (moves_looksAt _).bind fun _ => ?_
    refine (moves_comment.bind fun _ => ih).ite ?_
    exact (moves_looksAt _).bind fun _ => (moves_instruction.bind fun _ => ih).ite (moves_pure ())

theorem moves_declarationSpaces : Moves declarationSpaces := by
  refine (moves_takeWhile isSpace).bind fun spaces => ?_
  refine (moves_looksAt _).bind fun _ => moves_atEnd.bind fun _ => ?_
  exact moves_refuse.ite (moves_pure ())

/-- An attribute, and the white space behind it, may be left out. -/
theorem Moves.optionalAttribute {p : Prop} [Decidable p] {spaces : Scan Unit}
    {rest : Unit → Scan α} (hspaces : Moves spaces) (hrest : ∀ u, Moves (rest u)) :
    Moves (if p then tagAttribute >>= fun _ => spaces >>= rest else rest ()) :=
  (moves_tagAttribute.bind fun _ => hspaces.bind hrest).ite (hrest ())

theorem moves_declaration : Moves declaration := by
  refine (moves_advance 5).bind fun _ => moves_declarationSpaces.bind fun _ => ?_
  refine (moves_looksAt _).bind fun _ => Moves.ite ?_ (moves_expect _)
  refine (moves_looksAt _).bind fun _ => moves_refuse.optional fun _ => ?_
  refine moves_tagAttribute.bind fun _ => moves_declarationSpaces.bind fun _ => ?_
  refine (moves_looksAt _).bind fun _ => moves_declarationSpaces.optionalAttribute fun _ => ?_
  exact (moves_looksAt _).bind fun _ => moves_skipSpaces.optionalAttribute fun _ => moves_expect _

/-! ### The document type declaration -/

theorem moves_literal : Moves literal :=
  moves_quote.bind fun mark => (moves_takeWhile _).bind fun value =>
    (moves_expectChar mark).bind fun _ => moves_pure value

theorem moves_externalId : Moves externalId := by
  refine (moves_looksAt _).bind fun _ => Moves.ite ?_ ?_
  · exact (moves_advance 6).bind fun _ => moves_requireSpaces.bind fun _ =>
      moves_literal.bind fun _ => moves_pure true
  · refine (moves_looksAt _).bind fun _ => Moves.ite ?_ (moves_pure false)
    exact (moves_advance 6).bind fun _ => moves_requireSpaces.bind fun _ =>
      moves_literal.bind fun _ => moves_requireSpaces.bind fun _ =>
      moves_literal.bind fun _ => moves_pure true

/-! ### Tags -/

theorem moves_startTagRest (attributes : List RawAttribute) (fuel : Nat) :
    Moves (startTagRest attributes fuel) := by
  induction fuel generalizing attributes with
  | zero => exact moves_refuse
  | succ fuel ih =>
    refine (moves_takeWhile isSpace).bind fun spaces => (moves_looksAt _).bind fun _ => ?_
    refine Moves.ite ?_ ((moves_looksAt _).bind fun _ => Moves.ite ?_ (Moves.ite moves_refuse ?_))
    · exact (moves_advance 1).bind fun _ => (moves_expectChar '>').bind fun _ => moves_pure _
    · exact (moves_advance 1).bind fun _ => moves_pure _
    · exact moves_tagAttribute.bind fun a => ih (a :: attributes)

theorem moves_startTag (fuel : Nat) : Moves (startTag fuel) := by
  refine moves_offset.bind fun first => (moves_expectChar '<').bind fun _ => ?_
  refine moves_qualifiedName.bind fun name => moves_atEnd.bind fun _ => ?_
  refine (moves_pure _).ite ((moves_startTagRest [] fuel).bind fun rest => ?_)
  exact moves_offset.bind fun last => moves_pure _

theorem moves_endTag : Moves endTag :=
  (moves_expect _).bind fun _ => moves_qualifiedName.bind fun _ => moves_skipSpaces.bind fun _ =>
    (moves_expectChar '>').bind fun _ => moves_offset.bind fun _ => moves_pure _

end Scan

end EvalRun.Xml
