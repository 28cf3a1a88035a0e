import EvalRun.Proofs.Xml.Scanning

/-! # Proofs.Xml.Placement — where tokens and entities stand

    The tokens of a text lie one behind another, and what a tag was written
    with lies inside the document (`Laid`). The text of an entity stands in
    the document too, so the tokens read from it lie there one behind another
    just the same (`Cursor.contentTokens_laid`, `documentTokens_placed`).
-/

namespace EvalRun.Xml

variable {chars : List Char}

/-! ### Cursors in a document -/

/-- What is left at a cursor stands in the document at its place; it may end
    before the document does. -/
def Cursor.Within (chars : List Char) (c : Cursor) : Prop := c.rest <+: chars.drop c.offset

theorem Cursor.Within.skip {c : Cursor} (h : c.Within chars) (n : Nat) :
    (c.skip n).Within chars := by
  unfold Within
  obtain ⟨behind, hbehind⟩ := h
  rw [skip_rest, skip_offset, ← List.drop_drop, ← hbehind, List.drop_append]
  exact List.prefix_append _ _

/-- A cursor with something left stands before the end of the document. -/
theorem Cursor.Within.offset_lt {c : Cursor} (h : c.Within chars) (hrest : c.rest ≠ []) :
    c.offset < chars.length := by
  have hlength := List.IsPrefix.length_le h
  have hpos := List.length_pos_iff.2 hrest
  rw [List.length_drop] at hlength
  omega

/-! ### Tokens in a document -/

/-- The tags of a token lie between two places of the document. -/
def Token.LiesBetween (chars : List Char) (place behind : Nat) : Token → Prop
  | .startTag _ _ _ first last =>
    place ≤ first ∧ first < last ∧ last ≤ behind ∧ first < chars.length
  | .endTag _ last => place < last ∧ last ≤ behind
  | _ => place ≤ behind

/-- Tokens lie one behind another, all behind a place of the document. -/
inductive Laid (chars : List Char) : Nat → List Token → Prop where
  | nil (place : Nat) : Laid chars place []
  | cons {place behind : Nat} {t : Token} {rest : List Token}
    (first : t.LiesBetween chars place behind) (others : Laid chars behind rest) :
    Laid chars place (t :: rest)

theorem Token.LiesBetween.mono {place place' behind : Nat} {t : Token}
    (h : t.LiesBetween chars place behind) (hle : place' ≤ place) :
    t.LiesBetween chars place' behind := by
  cases t <;> simp only [LiesBetween] at h ⊢ <;> omega

/-- The token has no place of its own. -/
def Token.IsFree : Token → Prop
  | .startTag .. => False
  | .endTag .. => False
  | _ => True

theorem Token.IsFree.liesBetween {place behind : Nat} {t : Token} (ht : t.IsFree)
    (hle : place ≤ behind) : t.LiesBetween chars place behind := by
  cases t with
  | startTag | endTag => exact ht.elim
  | _ => exact hle

namespace Scan

/-- The token that the scan takes lies where its cursor moves. -/
def Lays (chars : List Char) (m : Scan Token) : Prop :=
  ∀ c t c', c.Within chars → m c = some (t, c') →
    c'.Within chars ∧ t.LiesBetween chars c.offset c'.offset

theorem lays_pure {t : Token} (ht : t.IsFree) : Lays chars (pure t) := by
  intro c t' c' hc h
  obtain ⟨rfl, rfl⟩ := pure_eq_some_iff.1 h
  exact ⟨hc, ht.liesBetween (Nat.le_refl _)⟩

theorem Lays.ite {p : Prop} [Decidable p] {m m' : Scan Token} (h : Lays chars m)
    (h' : Lays chars m') : Lays chars (if p then m else m') := by
  split
  · exact h
  · exact h'

/-- What is taken before a token only moves its place. -/
theorem Lays.behind {α : Type} {m : Scan α} {f : α → Scan Token} (hm : Moves m)
    (hf : ∀ a, Lays chars (f a)) : Lays chars (m >>= f) := by
  intro c t c' hc h
  obtain ⟨a, between, hfirst, hsecond⟩ := bind_eq_some_iff.1 h
  obtain ⟨n, rfl⟩ := hm _ _ _ hfirst
  obtain ⟨hc', hlies⟩ := hf a _ _ _ (hc.skip n) hsecond
  exact ⟨hc', hlies.mono (by rw [Cursor.skip_offset]; omega)⟩

theorem expectChar_eq_some {ch : Char} {c c' : Cursor} {u : Unit}
    (h : expectChar ch c = some (u, c')) : c.rest.head? = some ch ∧ c' = c.skip 1 := by
  obtain ⟨next?, between, hpeek, h⟩ := bind_eq_some_iff.1 h
  obtain ⟨rfl, rfl⟩ := Prod.mk.inj (Option.some.inj hpeek)
  split at h
  · rename_i hnext
    obtain ⟨-, rfl⟩ := Prod.mk.inj (Option.some.inj h)
    exact ⟨hnext, rfl⟩
  · cases h

/-- A start tag begins with a character of the document and ends behind it. -/
theorem lays_startTag (fuel : Nat) : Lays chars (startTag fuel) := by
  intro c t c' hc h
  have hmoved : c'.Within chars := by
    obtain ⟨n, rfl⟩ := moves_startTag fuel _ _ _ h
    exact hc.skip n
  refine ⟨hmoved, ?_⟩
  unfold startTag at h
  simp only [bind_eq_some_iff] at h
  obtain ⟨first, c₀, hfirst, _, c₁, hangle, name, c₂, hname, isEnd, c₃, hend, h⟩ := h
  obtain ⟨rfl, rfl⟩ := Prod.mk.inj (Option.some.inj hfirst)
  obtain ⟨hhead, rfl⟩ := expectChar_eq_some hangle
  obtain ⟨n, rfl⟩ := moves_qualifiedName _ _ _ hname
  obtain ⟨-, rfl⟩ := Prod.mk.inj (Option.some.inj hend)
  split at h
  · obtain ⟨rfl, rfl⟩ := pure_eq_some_iff.1 h
    simp only [Token.LiesBetween, Cursor.skip_offset]
    omega
  · simp only [bind_eq_some_iff] at h
    obtain ⟨⟨attributes, isEmpty⟩, c₄, hrest, last, c₅, hlast, h⟩ := h
    obtain ⟨k, rfl⟩ := moves_startTagRest _ _ _ _ _ hrest
    obtain ⟨rfl, rfl⟩ := Prod.mk.inj (Option.some.inj hlast)
    obtain ⟨rfl, rfl⟩ := pure_eq_some_iff.1 h
    have hinside : c.offset < chars.length :=
      hc.offset_lt (by rintro hnil; simp [hnil] at hhead)
    simp only [Token.LiesBetween, Cursor.skip_offset]
    omega

/-- An end tag ends behind the place where it is read. -/
theorem lays_endTag : Lays chars endTag := by
  intro c t c' hc h
  have hmoved : c'.Within chars := by
    obtain ⟨n, rfl⟩ := moves_endTag _ _ _ h
    exact hc.skip n
  refine ⟨hmoved, ?_⟩
  unfold endTag at h
  simp only [bind_eq_some_iff] at h
  obtain ⟨_, c₁, hopen, name, c₂, hname, _, c₃, hspaces, _, c₄, hangle, last, c₅, hlast, h⟩ := h
  obtain ⟨k₁, rfl⟩ := moves_expect _ _ _ _ hopen
  obtain ⟨k₂, rfl⟩ := moves_qualifiedName _ _ _ hname
  obtain ⟨k₃, rfl⟩ := moves_skipSpaces _ _ _ hspaces
  obtain ⟨-, rfl⟩ := expectChar_eq_some hangle
  obtain ⟨rfl, rfl⟩ := Prod.mk.inj (Option.some.inj hlast)
  obtain ⟨rfl, rfl⟩ := pure_eq_some_iff.1 h
  simp only [Token.LiesBetween, Cursor.skip_offset]
  omega

theorem lays_text : Lays chars text :=
  .behind (moves_takeChars _) fun _ =>
    .ite (.behind moves_refuse fun _ => lays_pure trivial) (lays_pure trivial)

theorem lays_contentToken (fuel : Nat) : Lays chars (contentToken fuel) := by
  refine .behind (moves_looksAt _) fun _ => .ite ?_ (.behind (moves_looksAt _) fun _ => .ite ?_
    (.behind (moves_looksAt _) fun _ => .ite ?_ (.behind (moves_looksAt _) fun _ => .ite ?_
      (.behind (moves_looksAt _) fun _ => .ite ?_ ?_))))
  · exact .behind moves_comment fun _ => lays_pure trivial
  · exact .behind (moves_advance 9) fun _ => .behind (moves_takeThrough _) fun _ =>
      lays_pure trivial
  · exact .behind moves_instruction fun _ => lays_pure trivial
  · exact lays_endTag
  · exact lays_startTag fuel
  · exact lays_text

/-- The tokens of content lie one behind another. -/
theorem content_laid {opened fuel : Nat} {tokens all : List Token} {c c' : Cursor}
    (hc : c.Within chars) (h : content opened tokens fuel c = some (all, c')) :
    c'.Within chars ∧ ∃ taken, all = tokens.reverse ++ taken ∧ Laid chars c.offset taken := by
  induction fuel generalizing opened tokens c with
  | zero => cases h
  | succ fuel ih =>
    unfold content at h
    obtain ⟨isEnd, c₀, hend, h⟩ := bind_eq_some_iff.1 h
    obtain ⟨-, rfl⟩ := Prod.mk.inj (Option.some.inj hend)
    split at h
    · obtain ⟨rfl, rfl⟩ := pure_eq_some_iff.1 h
      exact ⟨hc, [], (List.append_nil _).symm, .nil _⟩
    · obtain ⟨t, between, htoken, h⟩ := bind_eq_some_iff.1 h
      obtain ⟨hbetween, hlies⟩ := lays_contentToken fuel _ _ _ hc htoken
      -- either the content goes on behind the token or the token ends it
      have hmore {opened : Nat} (h : content opened (t :: tokens) fuel between = some (all, c')) :
          c'.Within chars ∧
            ∃ taken, all = tokens.reverse ++ taken ∧ Laid chars c.offset taken := by
        obtain ⟨hc', taken, rfl, hlaid⟩ := ih hbetween h
        exact ⟨hc', t :: taken, by simp, .cons hlies hlaid⟩
      cases t with
      | startTag name attributes isEmpty first last =>
        cases isEmpty with
        | false => exact hmore h
        | true => exact hmore h
      | endTag name last =>
        cases opened with
        | zero =>
          obtain ⟨rfl, rfl⟩ := pure_eq_some_iff.1 h
          exact ⟨hbetween, [.endTag name last], by simp, .cons hlies (.nil _)⟩
        | succ n => exact hmore h
      | text | cdata | comment | instruction | cutTag => exact hmore h

/-! ### Entities and tokens of a document -/

variable {α β : Type} {P : α → Prop} {Q : β → Prop}

/-- In a document the scan stays in it, and what it returns has a property. -/
def Ensures (chars : List Char) (P : α → Prop) (m : Scan α) : Prop :=
  ∀ c a c', c.Within chars → m c = some (a, c') → c'.Within chars ∧ P a

theorem ensures_pure {a : α} (ha : P a) : Ensures chars P (pure a) := by
  intro c b c' hc h
  obtain ⟨rfl, rfl⟩ := pure_eq_some_iff.1 h
  exact ⟨hc, ha⟩

theorem ensures_refuse : Ensures chars P refuse := by
  intro c a c' _ h
  cases h

theorem Ensures.ite {p : Prop} [Decidable p] {m m' : Scan α} (h : Ensures chars P m)
    (h' : Ensures chars P m') : Ensures chars P (if p then m else m') := by
  split
  · exact h
  · exact h'

theorem Ensures.bind {m : Scan α} {f : α → Scan β} (hm : Ensures chars P m)
    (hf : ∀ a, P a → Ensures chars Q (f a)) : Ensures chars Q (m >>= f) := by
  intro c b c' hc h
  obtain ⟨a, between, hfirst, hsecond⟩ := bind_eq_some_iff.1 h
  obtain ⟨hbetween, ha⟩ := hm _ _ _ hc hfirst
  exact hf a ha _ _ _ hbetween hsecond

/-- What is taken before matters for the cursor only. -/
theorem Ensures.behind {m : Scan α} {f : α → Scan β} (hm : Moves m)
    (hf : ∀ a, Ensures chars Q (f a)) : Ensures chars Q (m >>= f) := by
  refine Ensures.bind (P := fun _ => True) ?_ fun a _ => hf a
  intro c a c' hc h
  obtain ⟨n, rfl⟩ := hm _ _ _ h
  exact ⟨hc.skip n, trivial⟩

theorem Ensures.optional {p : Prop} [Decidable p] {m : Scan Unit} {rest : Unit → Scan β}
    (hm : Moves m) (hrest : ∀ u, Ensures chars Q (rest u)) :
    Ensures chars Q (if p then m >>= rest else rest ()) :=
  (Ensures.behind hm hrest).ite (hrest ())

/-- A literal stands in the document behind its quotation mark. -/
theorem literal_within {c c' : Cursor} {value : List Char} (hc : c.Within chars)
    (h : literal c = some (value, c')) : (Cursor.mk value (c.offset + 1)).Within chars := by
  unfold literal quote at h
  simp only [bind_eq_some_iff] at h
  obtain ⟨mark, c₁, ⟨next?, c₀, hpeek, hmark⟩, taken, c₂, htaken, _, c₃, -, h⟩ := h
  obtain ⟨-, rfl⟩ := Prod.mk.inj (Option.some.inj hpeek)
  obtain ⟨rfl, -⟩ := pure_eq_some_iff.1 h
  have hmoved : c₁ = c.skip 1 := by
    cases next? with
    | none => cases hmark
    | some ch =>
      simp only at hmark
      split at hmark
      · obtain ⟨_, between, hadvance, hpure⟩ := bind_eq_some_iff.1 hmark
        obtain ⟨-, rfl⟩ := Prod.mk.inj (Option.some.inj hadvance)
        exact (pure_eq_some_iff.1 hpure).2.symm
      · cases hmark
  subst hmoved
  obtain ⟨rfl, -⟩ := Prod.mk.inj (Option.some.inj htaken)
  exact (List.takeWhile_prefix _).trans (hc.skip 1)

theorem ensures_entityDefinition (general : Bool) :
    Ensures chars (fun value? => ∀ value ∈ value?, value.Within chars)
      (entityDefinition general) := by
  refine .behind moves_peek? fun next? => ?_
  cases next? with
  | none => exact ensures_refuse
  | some ch =>
    refine .ite ?_ (.behind moves_externalId fun _ => .ite ?_ ensures_refuse)
    · intro c value? c' hc h
      obtain ⟨start, c₀, hstart, h⟩ := bind_eq_some_iff.1 h
      obtain ⟨rfl, rfl⟩ := Prod.mk.inj (Option.some.inj hstart)
      obtain ⟨value, c₁, hliteral, h⟩ := bind_eq_some_iff.1 h
      obtain ⟨rfl, rfl⟩ := pure_eq_some_iff.1 h
      have hwithin := literal_within hc hliteral
      obtain ⟨n, rfl⟩ := moves_literal _ _ _ hliteral
      exact ⟨hc.skip n, fun _ hmem => Option.some.inj hmem ▸ hwithin⟩
    · have hnone : Ensures chars (fun value? : Option Cursor => ∀ value ∈ value?,
          value.Within chars) (pure none) := ensures_pure nofun
      refine .ite (.behind moves_skipSpaces fun _ => .behind (moves_looksAt _) fun _ => ?_) hnone
      exact .ite (.behind (moves_advance 5) fun _ => .behind moves_requireSpaces fun _ =>
        .behind moves_name fun _ => hnone) hnone

theorem ensures_entity :
    Ensures chars (fun e? => ∀ e ∈ e?, e.value.Within chars) entity := by
  refine .behind (moves_expect _) fun _ => .behind moves_requireSpaces fun _ =>
    .behind (moves_looksAt _) fun parameter => .ite (.behind (moves_advance 1) fun _ =>
      .behind moves_requireSpaces fun _ => ?_) ?_
  all_goals
    refine .behind moves_name fun name => .behind moves_requireSpaces fun _ =>
      (ensures_entityDefinition _).bind fun value? hvalue => .behind moves_skipSpaces fun _ =>
      .behind (moves_expectChar _) fun _ => ensures_pure fun e he => ?_
    obtain ⟨value, hmem, rfl⟩ := Option.map_eq_some_iff.1 he
    exact hvalue value hmem

theorem ensures_internalSubset {entities : List Entity} (fuel : Nat)
    (hentities : ∀ e ∈ entities, e.value.Within chars) :
    Ensures chars (fun all : List Entity => ∀ e ∈ all, e.value.Within chars)
      (internalSubset entities fuel) := by
  induction fuel generalizing entities with
  | zero => exact ensures_refuse
  | succ fuel ih =>
    refine .behind moves_atEnd fun _ => .ite (ensures_pure hentities) ?_
    refine .behind moves_skipSpaces fun _ => .behind (moves_looksAt _) fun _ => .ite ?_
      (.behind (moves_looksAt _) fun _ => .ite ?_ (.behind (moves_looksAt _) fun _ => .ite ?_
      (.behind (moves_looksAt _) fun _ => .ite ?_ ?_)))
    · refine ensures_entity.bind fun e? he => ?_
      cases e? with
      | none => exact ih hentities
      | some e =>
        apply ih
        simpa [or_imp, forall_and] using And.intro hentities (he e rfl)
    · exact .behind moves_comment fun _ => ih hentities
    · exact .behind moves_instruction fun _ => ih hentities
    · exact .behind (moves_advance 1) fun _ => .behind moves_skipSpaces fun _ =>
        .behind (moves_expectChar _) fun _ => ensures_pure hentities
    · refine .behind (moves_looksAt _) fun _ => .behind (moves_looksAt _) fun _ =>
        .behind (moves_looksAt _) fun _ => .ite ?_ ensures_refuse
      exact .behind (moves_takeWhile _) fun _ => .behind (moves_expectChar _) fun _ => ih hentities

theorem ensures_doctype (fuel : Nat) :
    Ensures chars (fun all : List Entity => ∀ e ∈ all, e.value.Within chars) (doctype fuel) := by
  refine .behind (moves_expect _) fun _ => .behind moves_requireSpaces fun _ =>
    .behind moves_name fun _ => .behind moves_skipSpaces fun _ =>
    .behind moves_externalId fun _ => .behind moves_skipSpaces fun _ =>
    .behind moves_peek? fun next? => ?_
  cases next? with
  | none => exact ensures_refuse
  | some c =>
    refine .ite (.behind (moves_advance 1) fun _ => ensures_pure nofun) ?_
    exact .ite (.behind (moves_advance 1) fun _ => ensures_internalSubset fuel nofun)
      ensures_refuse

theorem ensures_rootElement (fuel : Nat) :
    Ensures chars (fun tokens => ∃ place, Laid chars place tokens) (rootElement fuel) := by
  refine .behind (moves_looksAt _) fun _ => .ite ?_ (ensures_pure ⟨0, .nil 0⟩)
  intro c tokens c' hc h
  obtain ⟨tag, between, htag, h⟩ := bind_eq_some_iff.1 h
  obtain ⟨hbetween, hlies⟩ := lays_startTag fuel _ _ _ hc htag
  have halone (h : (pure [tag] : Scan (List Token)) between = some (tokens, c')) :
      c'.Within chars ∧ ∃ place, Laid chars place tokens := by
    obtain ⟨rfl, rfl⟩ := pure_eq_some_iff.1 h
    exact ⟨hbetween, c.offset, .cons hlies (.nil _)⟩
  cases tag with
  | startTag name attributes isEmpty first last =>
    cases isEmpty with
    | true => exact halone h
    | false =>
      obtain ⟨inner, behind, hinner, h⟩ := bind_eq_some_iff.1 h
      obtain ⟨rfl, rfl⟩ := pure_eq_some_iff.1 h
      obtain ⟨hbehind, taken, rfl, hlaid⟩ := content_laid hbetween hinner
      exact ⟨hbehind, c.offset, .cons hlies (by simpa using hlaid)⟩
  | endTag | text | cdata | comment | instruction | cutTag => exact halone h

/-- What is read from a document stands in it: the texts of the entities, and
    the tokens one behind another. -/
def Placed (chars : List Char) (found : List Entity × List Token) : Prop :=
  (∀ e ∈ found.1, e.value.Within chars) ∧ ∃ place, Laid chars place found.2

theorem ensures_document (fuel : Nat) : Ensures chars (Placed chars) (document fuel) := by
  have htokens {entities : List Entity} (hentities : ∀ e ∈ entities, e.value.Within chars) :
      Ensures chars (Placed chars) (do
        skipSpaces
        let tokens ← rootElement fuel
        misc fuel
        if ← atEnd then pure (entities, tokens) else refuse) :=
    .behind moves_skipSpaces fun _ => (ensures_rootElement fuel).bind fun tokens hlaid =>
      .behind (moves_misc fuel) fun _ => .behind moves_atEnd fun _ =>
      .ite (ensures_pure ⟨hentities, hlaid⟩) ensures_refuse
  have hpure {entities : List Entity} (hentities : ∀ e ∈ entities, e.value.Within chars) :
      Ensures chars (fun all : List Entity => ∀ e ∈ all, e.value.Within chars) (pure entities) :=
    ensures_pure hentities
  refine .behind (moves_looksAt _) fun _ => .optional (moves_advance 1) fun _ => ?_
  refine .behind (moves_looksAt _) fun _ => .optional moves_declaration fun _ => ?_
  refine .behind (moves_misc fuel) fun _ => .behind moves_skipSpaces fun _ =>
    .behind (moves_looksAt _) fun _ => .ite ?_ ?_
  · exact (ensures_doctype fuel).bind fun entities hentities => .behind (moves_misc fuel) fun _ =>
      (hpure hentities).bind fun _ => htokens
  · exact (hpure (List.forall_mem_nil _)).bind fun _ => htokens

end Scan

/-- The tokens of a replacement text lie where it stands. -/
theorem Cursor.contentTokens_laid {c : Cursor} (hc : c.Within chars) {tokens : List Token}
    (h : c.contentTokens = some tokens) : Laid chars c.offset tokens := by
  obtain ⟨⟨all, c'⟩, hcontent, rfl⟩ := Option.map_eq_some_iff.1 h
  obtain ⟨-, taken, rfl, hlaid⟩ := Scan.content_laid hc hcontent
  simpa using hlaid

/-- What is read from a document stands in it. -/
theorem documentTokens_placed {found : List Entity × List Token}
    (h : documentTokens chars = some found) : Scan.Placed chars found := by
  obtain ⟨⟨all, c'⟩, hdocument, rfl⟩ := Option.map_eq_some_iff.1 h
  have hstart : (Cursor.mk chars 0).Within chars := List.prefix_refl chars
  exact (Scan.ensures_document _ _ _ _ hstart hdocument).2

end EvalRun.Xml
