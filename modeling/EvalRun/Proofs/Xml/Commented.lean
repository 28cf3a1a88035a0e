import EvalRun.Proofs.Xml.Difference
import EvalRun.Proofs.Xml.Insertion

/-! # Proofs.Xml.Commented — a document with a comment put in

    A comment is put into a document at a place in the content of its root
    element. What is read up to that place decides where the comment comes to
    stand (`readSoFar?`): inside the innermost element that is open there, behind
    the children read so far. Nothing else of the tree changes but the places
    behind the comment (`Document.parse_insert_comment`).

    The proof runs two builders side by side, one over the tokens of the document
    with all places behind the comment shifted, the other over those of the
    document with the comment. They agree up to the character data in which the
    comment stands, and are apart in one element from there on.
-/

namespace EvalRun.Xml

/-! ### A text that breaks off -/

/-- The start tag is cut off. -/
def Token.isCutTag : Token → Bool
  | .cutTag => true
  | _ => false

/-- What is read of a document up to a place in the content of its root element:
    nothing if the place is inside a tag or a reference. -/
def readSoFar? (left : List Char) : Option Builder := do
  let (entities, tokens) ← documentTokens left
  if tokens.any Token.isCutTag then none
  else Builder.start.addTokens entities 0 maxEntityDepth tokens

/-- Where the open elements stand, the innermost first. -/
def Builder.spots (b : Builder) : List Spot :=
  List.zipWith Spot.mk (b.tags.map (·.name.localPart)) b.levels.tail

/-- What is read so far are the tokens of the text, none of which is cut off. -/
theorem readSoFar?_eq_some_iff {left : List Char} {b : Builder} :
    readSoFar? left = some b ↔ ∃ entities tokens, documentTokens left = some (entities, tokens) ∧
      .cutTag ∉ tokens ∧ Builder.start.addTokens entities 0 maxEntityDepth tokens = some b := by
  have hcut (tokens : List Token) : tokens.any Token.isCutTag = true ↔ .cutTag ∈ tokens := by
    rw [List.any_eq_true]
    constructor
    · rintro ⟨t, ht, hcut⟩
      cases t with
      | cutTag => exact ht
      | _ => cases hcut
    · exact fun h => ⟨_, h, rfl⟩
  unfold readSoFar?
  simp only [Option.bind_eq_bind, Option.bind_eq_some_iff, Prod.exists]
  constructor
  · rintro ⟨entities, tokens, htokens, h⟩
    split at h
    · cases h
    · rename_i hnone
      exact ⟨entities, tokens, htokens, fun hmem => hnone ((hcut tokens).2 hmem), h⟩
  · rintro ⟨entities, tokens, htokens, hnone, h⟩
    refine ⟨entities, tokens, htokens, ?_⟩
    rw [if_neg fun hmem => hnone ((hcut tokens).1 hmem)]
    exact h

/-- An open element with the children it has so far. -/
def OpenElement.soFar (e : OpenElement) : Node :=
  .element e.name.localPart e.first e.first e.children.reverse

namespace Builder

variable {entities : List Entity} {depth nesting : Nat} {follow : Builder → Cursor → Option Builder}

/-! ### Character data that goes on -/

/-- The tokens of character data are taken in as the characters are. -/
theorem foldlM_textTokens (b : Builder) (seen : Bool) (cs : List Char) :
    (textTokens cs).foldlM (addToken entities depth nesting follow) (b, seen) =
      (addChars entities depth follow (cs.length + 1) b .empty cs).map (·, seen) := by
  unfold textTokens
  split
  · rename_i hnil
    subst hnil
    rfl
  · simp only [List.foldlM_cons, List.foldlM_nil, addToken]
    cases addChars entities depth follow (cs.length + 1) b .empty cs <;> rfl

/-- Character data that goes on is read as before, up to the buffer: its last
    character may wait for the next one. -/
theorem addChars_append {fuel fuel' : Nat} {b c : Builder} {buffer buffer' : TextBuffer}
    {tail : List Char} (more : List Char) (hbuffer : tail = [] ∨ buffer = buffer')
    (hfuel : (tail ++ more).length < fuel')
    (h : addChars entities depth follow fuel b buffer tail = some c) :
    ∃ b₀ read read' fuel₀, c = b₀.addBuffer read ∧ more.length < fuel₀ ∧
      addChars entities depth follow fuel' b buffer' (tail ++ more) =
        addChars entities depth follow fuel₀ b₀ read' more := by
  induction fuel generalizing fuel' b buffer buffer' tail with
  | zero => cases h
  | succ fuel ih =>
    cases tail with
    | nil => exact ⟨b, buffer, buffer', fuel', (Option.some.inj h).symm, hfuel, rfl⟩
    | cons ch rest =>
      obtain rfl : buffer = buffer' := hbuffer.resolve_left (List.cons_ne_nil ch rest)
      obtain ⟨fuel', rfl⟩ := Nat.exists_eq_succ_of_ne_zero (n := fuel') (by omega)
      rw [List.cons_append, List.length_cons] at hfuel
      -- behind the last character only one of the two texts is at its end
      have hsame (push : Bool → TextBuffer) (cs : List Char) :
          cs = [] ∨ push cs.isEmpty = push (cs ++ more).isEmpty := by
        cases cs with
        | nil => exact .inl rfl
        | cons => exact .inr rfl
      unfold addChars at h
      rw [List.cons_append, addChars]
      simp only at h ⊢
      split at h
      · rename_i hplain
        rw [if_pos hplain]
        exact ih (hsame (buffer.push ch) rest) (Nat.lt_of_succ_lt_succ hfuel) h
      · rename_i hreference
        rw [if_neg hreference]
        obtain ⟨⟨reference, behind⟩, hscan, h⟩ := Option.bind_eq_some_iff.1 h
        have hclosing := Scan.closing_reference (s := ⟨0, more, ';', rest.length + 1⟩) rfl
        have hscan' : Scan.reference ⟨rest ++ more, 0⟩ =
            some (reference, ⟨behind.rest ++ more, behind.offset⟩) :=
          hclosing.carries (Nat.lt_succ_self _) hscan (.inr (.inr trivial))
        have hshorter : (behind.rest ++ more).length < fuel' := by
          have hless : behind.rest.length < rest.length := (hclosing.closes hscan trivial).length_lt
          simp only [List.length_append] at hfuel ⊢
          omega
        rw [Option.bind_eq_bind, hscan', Option.bind_some]
        cases reference with
        | char found =>
          exact ih (hsame (buffer.pushReferenced found (depth ≠ 0)) behind.rest) hshorter h
        | entity name =>
          simp only [Option.bind_eq_bind, Option.bind_eq_some_iff] at h
          obtain ⟨value, hvalue, references, hcount, between, hbetween, h⟩ := h
          simp only [Option.bind_eq_bind, hvalue, hcount, hbetween, Option.bind_some]
          exact ih (.inr rfl) hshorter h

/-! ### Elements in front of a place -/

end Builder

/-- A list stays as it is if each of its elements does. -/
theorem map_eq_self_iff {α : Type} {f : α → α} {as : List α} :
    as.map f = as ↔ ∀ a ∈ as, f a = a := by
  conv => lhs; rhs; rw [← List.map_id as]
  exact List.map_inj_left

/-- An element that ends by a place is not written across it. -/
theorem Node.isClear_of_mapPlaces_eq (p : Nat) (n : Node) (h : n.mapPlaces id (min · p) = n) :
    n.IsClear p := by
  cases n with
  | element name first last children =>
    rw [mapPlaces_element] at h
    obtain ⟨-, -, hlast, hchildren⟩ := Node.element.inj h
    refine .element (.inl ?_) fun child hchild => ?_
    · rw [← hlast]
      exact Nat.min_le_right last p
    · exact isClear_of_mapPlaces_eq p child (map_eq_self_iff.1 hchildren child hchild)
  | text chars => exact .text chars
  | comment => exact .comment
  | instruction => exact .instruction

namespace Builder

/-- All nodes of a builder are clear if none ends behind the place. -/
theorem isClear_of_mapPlaces_eq {p : Nat} {b : Builder} (h : b.mapPlaces id (min · p) = b) :
    ∀ level ∈ b.levels, ∀ n ∈ level, n.IsClear p := by
  obtain ⟨hopened, htop⟩ : _ ∧ b.top.map (Node.mapPlaces id (min · p)) = b.top :=
    ⟨congrArg Builder.opened h, congrArg Builder.top h⟩
  intro level hlevel n hn
  apply Node.isClear_of_mapPlaces_eq
  rcases List.mem_append.1 hlevel with hinside | houtside
  · obtain ⟨e, he, rfl⟩ := List.mem_map.1 hinside
    have hsame := congrArg OpenElement.children (map_eq_self_iff.1 hopened e he)
    exact map_eq_self_iff.1 hsame n hn
  · obtain rfl := List.mem_singleton.1 houtside
    exact map_eq_self_iff.1 htop n hn

end Builder

/-! ### Places behind a place -/

/-- Where an element begins once something of length `d` is put in at `p`. -/
def shiftFirst (p d q : Nat) : Nat := if q < p then q else q + d

/-- Where an element ends once something of length `d` is put in at `p`. -/
def shiftLast (p d q : Nat) : Nat := if q ≤ p then q else q + d

variable {p : Nat}

/-- Nothing before the place moves. -/
theorem shiftFirst_of_lt (d : Nat) {q : Nat} (h : q < p) : shiftFirst p d q = q := if_pos h

/-- What ends by the place stays. -/
theorem shiftLast_of_le (d : Nat) {q : Nat} (h : q ≤ p) : shiftLast p d q = q := if_pos h

/-- Tokens that lie behind a place stand there. -/
theorem Laid.standsBehind {chars : List Char} {place : Nat} {tokens : List Token}
    (h : Laid chars place tokens) (hle : p ≤ place) : ∀ t ∈ tokens, t.StandsBehind p := by
  induction h with
  | nil => exact List.forall_mem_nil _
  | @cons place behind t rest hlies _ ih =>
    have hbehind : place ≤ behind ∧ t.StandsBehind p := by
      cases t with
      | startTag name attributes isEmpty first last =>
        obtain ⟨hfirst, horder, hlast, -⟩ := hlies
        exact ⟨by omega, by omega, by omega⟩
      | endTag name last =>
        obtain ⟨horder, hlast⟩ := hlies
        exact ⟨by omega, Nat.lt_of_le_of_lt hle horder⟩
      | _ => exact ⟨hlies, trivial⟩
    exact List.forall_mem_cons.2 ⟨hbehind.2, ih (by omega)⟩

/-- Tokens behind a place are shifted whole. -/
theorem Token.StandsBehind.mapPlaces {t : Token} (h : t.StandsBehind p) (d : Nat) :
    t.mapPlaces (· + d) (· + d) = t.mapPlaces (shiftFirst p d) (shiftLast p d) ∧
      (t.mapPlaces (· + d) (· + d)).StandsBehind p := by
  cases t with
  | startTag name attributes isEmpty first last =>
    obtain ⟨hfirst, hlast⟩ := h
    have hfirst' : shiftFirst p d first = first + d := if_neg (by omega)
    have hlast' : shiftLast p d last = last + d := if_neg (by omega)
    refine ⟨by rw [Token.mapPlaces, Token.mapPlaces, hfirst', hlast'], ?_⟩
    change p ≤ first + d ∧ p < last + d
    omega
  | endTag name last =>
    have hlast : p < last := h
    have hlast' : shiftLast p d last = last + d := if_neg (by omega)
    refine ⟨by rw [Token.mapPlaces, Token.mapPlaces, hlast'], ?_⟩
    change p < last + d
    omega
  | text | cdata | comment | instruction | cutTag => exact ⟨rfl, trivial⟩

namespace Node

/-- The tree where something of length `d` is put in at `p`. -/
def shifted (p d : Nat) (n : Node) : Node := n.mapPlaces (shiftFirst p d) (shiftLast p d)

/-- Characters of the first of two texts are the same whatever comes behind. -/
theorem take_drop_append_left {first last : Nat} {left : List Char} (hlast : last ≤ left.length)
    (behind : List Char) :
    ((left ++ behind).drop first).take (last - first) = (left.drop first).take (last - first) := by
  by_cases hle : first ≤ left.length
  · rw [List.drop_append_of_le_length hle, List.take_append_of_le_length]
    rw [List.length_drop]
    omega
  · have hnone : last - first = 0 := by omega
    rw [hnone, List.take_zero, List.take_zero]

/-- An element that is not written across the place of a comment is written with
    the same characters. -/
theorem source_shifted {left right comment : List Char} {n : Node}
    (hclear : (n.shifted left.length comment.length).IsClear left.length) :
    (n.shifted left.length comment.length).source (left ++ (comment ++ right)) =
      n.source (left ++ right) := by
  cases n with
  | element name first last children =>
    rw [shifted, mapPlaces_element] at hclear ⊢
    have hplace : last ≤ left.length ∨ left.length ≤ first := by
      cases hclear with
      | element hplace _ =>
        unfold shiftFirst shiftLast at hplace
        split at hplace <;> split at hplace <;> omega
    change ((left ++ (comment ++ right)).drop _).take _ = ((left ++ right).drop first).take _
    rcases hplace with hbefore | hbehind
    · rw [shiftLast_of_le _ hbefore, take_drop_append_left hbefore, take_drop_append_left hbefore]
      by_cases hfirst : first < left.length
      · rw [shiftFirst_of_lt _ hfirst]
      · have hnone : last - first = 0 := by omega
        have hnone' : last - shiftFirst left.length comment.length first = 0 := by
          unfold shiftFirst
          split <;> omega
        rw [hnone, hnone', List.take_zero, List.take_zero]
    · -- both begin in the second part, which the comment moves
      have hfirst : shiftFirst left.length comment.length first = first + comment.length :=
        if_neg (by omega)
      have hlength : shiftLast left.length comment.length last - (first + comment.length) =
          last - first := by
        unfold shiftLast
        split <;> omega
      obtain ⟨k, rfl⟩ := Nat.exists_eq_add_of_le hbehind
      have hmoved : left.length + k + comment.length = (left ++ comment).length + k := by
        rw [List.length_append]
        omega
      rw [hfirst, hlength, hmoved, ← List.append_assoc, List.drop_length_add_append,
        List.drop_length_add_append]
  | text | comment | instruction => rfl

end Node

namespace Builder

/-! ### A comment between two runs -/

variable {p d : Nat} {base : List Node} {path spots : List Spot} {inner : List Nat}
  {entities : List Entity} {depth nesting : Nat} {follow : Builder → Cursor → Option Builder}

/-- A comment sets two builders apart in the innermost element, also if the
    first one still has characters in its buffer. -/
theorem apart_comment {b₀ b : Builder} {buffer : TextBuffer} (hb : b = b₀.addBuffer buffer)
    (hclear : ∀ level ∈ b.levels, ∀ n ∈ level, n.IsClear p) :
    Apart p (b.levels.headD []) b.spots [] [] b₀ (b.addNode .comment) := by
  obtain ⟨nodes, back, hlevels⟩ : ∃ nodes back, b₀.levels = nodes :: back := by
    apply List.exists_cons_of_ne_nil
    simp [levels]
  obtain ⟨hreferences, htags, base, hsame⟩ : b.references = b₀.references ∧ b.tags = b₀.tags ∧
      ∃ base, b.levels = base :: back := by
    obtain ⟨hreferences, htags, hsame | hjoined⟩ := addBuffer_levels b₀ buffer
    · rw [hb]
      exact ⟨hreferences, htags, nodes, hsame.trans hlevels⟩
    · rw [hb]
      refine ⟨hreferences, htags, joinText buffer.text nodes, ?_⟩
      rw [hjoined, hlevels]
      rfl
  rw [hsame, List.forall_mem_cons] at hclear
  refine ⟨by rw [references_addNode, hreferences], by rw [tags_addNode, htags], [], nodes,
    .comment :: base, back, hlevels, ?_, ?_, hclear.2, rfl, ?_⟩
  · rw [levels_addNode, hsame]
    rfl
  · rw [hsame]
    exact .here nodes []
  · rw [spots, hsame, htags]
    rfl

/-- Two builders that are apart and have closed all elements differ in the
    element that the path leads to. -/
theorem Apart.differs {b b' : Builder} (h : Apart p base path spots inner b b')
    (hopened : b.opened = []) : b'.opened = [] ∧ Differs p base path.reverse b.top b'.top := by
  obtain ⟨-, htags, front, nodes, nodes', back, hlevels, hlevels', hdiffers, -, -, rfl⟩ := h
  have hopened' : b'.opened = [] := by
    unfold Builder.tags at htags
    rw [hopened] at htags
    exact List.map_eq_nil_iff.1 htags
  refine ⟨hopened', ?_⟩
  unfold Builder.levels at hlevels hlevels'
  rw [hopened] at hlevels
  rw [hopened'] at hlevels'
  obtain ⟨rfl, rfl, rfl⟩ : front = [] ∧ nodes = b.top ∧ back = [] := by
    cases front with
    | nil => exact ⟨rfl, (List.cons.inj hlevels).1.symm, (List.cons.inj hlevels).2.symm⟩
    | cons level front => simp at hlevels
  obtain rfl : nodes' = b'.top := (List.cons.inj hlevels').1.symm
  simpa using hdiffers

/-- Character data stands nowhere in particular. -/
theorem textTokens_endsBy (cs : List Char) : ∀ t ∈ textTokens cs, t.EndsBy p := by
  unfold textTokens
  split
  · exact List.forall_mem_nil _
  · exact List.forall_mem_singleton.2 trivial

/-- A change of the places behind `p` goes through all tokens if the entities are
    declared before `p`. -/
theorem foldlM_mapPlaces_of_endsBy {f g : Nat → Nat}
    (hentities : ∀ e ∈ entities, ∀ tokens, e.value.contentTokens = some tokens →
      ∀ t ∈ tokens, t.EndsBy p)
    (hf : ∀ q < p, f q = q) (hg : ∀ q ≤ p, g q = q) (nesting : Nat) (s : Builder × Bool)
    (tokens : List Token) : (tokens.map (Token.mapPlaces f g)).foldlM
        (addToken entities 0 nesting (followEntity entities 0 nesting)) (s.1.mapPlaces f g, s.2) =
      (tokens.foldlM (addToken entities 0 nesting (followEntity entities 0 nesting)) s).map
        fun u => (u.1.mapPlaces f g, u.2) :=
  foldlM_addToken_mapPlaces (followKeepsPlaces_followEntity (fun e he tokens htokens =>
    map_mapPlaces_eq (hentities e he tokens htokens) hf hg) nesting 0) s tokens

/-- Tokens that end by `p` build nothing that such a change would move. -/
theorem mapPlaces_eq_of_endsBy {f g : Nat → Nat} {tokens : List Token} {u : Builder × Bool}
    (hentities : ∀ e ∈ entities, ∀ tokens, e.value.contentTokens = some tokens →
      ∀ t ∈ tokens, t.EndsBy p)
    (hf : ∀ q < p, f q = q) (hg : ∀ q ≤ p, g q = q) (htokens : ∀ t ∈ tokens, t.EndsBy p)
    (hu : tokens.foldlM (addToken entities 0 nesting (followEntity entities 0 nesting))
      (start, false) = some u) : u.1.mapPlaces f g = u.1 := by
  have hmapped := foldlM_mapPlaces_of_endsBy hentities hf hg nesting (start, false) tokens
  have hstart : start.mapPlaces f g = start := rfl
  rw [map_mapPlaces_eq htokens hf hg, hstart, hu] at hmapped
  exact (congrArg Prod.fst (Option.some.inj hmapped)).symm

/-- Tokens that go on behind a text, and the same with a comment between: in the
    end the trees differ in the element in which the comment stands. -/
theorem addTokens_commented {ts behind : List Token} {tail more : List Char} {b c : Builder}
    (hbalanced : ∀ e ∈ entities, e.IsBalanced)
    (hentities : ∀ e ∈ entities, ∀ tokens, e.value.contentTokens = some tokens →
      ∀ t ∈ tokens, t.EndsBy p)
    (hts : ∀ t ∈ ts, t.EndsBy p) (hbehind : ∀ t ∈ behind, t.StandsBehind p)
    (hb : start.addTokens entities 0 nesting (ts ++ textTokens tail) = some b)
    (hc : start.addTokens entities 0 nesting (ts ++ textTokens (tail ++ more) ++ behind) = some c)
    (hclosed : c.opened = []) (d : Nat) :
    ∃ c', start.addTokens entities 0 nesting (ts ++ textTokens tail ++ .comment ::
        (textTokens more ++ behind.map (Token.mapPlaces (· + d) (· + d)))) = some c' ∧
      c'.opened = [] ∧
      Differs p (b.levels.headD []) b.spots.reverse (c.top.map (Node.shifted p d)) c'.top := by
  have htexts (cs : List Char) : ∀ t ∈ ts ++ textTokens cs, t.EndsBy p :=
    List.forall_mem_append.2 ⟨hts, textTokens_endsBy cs⟩
  -- what stands before the comment stays where it is
  have hfirst : ∀ q < p, shiftFirst p d q = q := fun q hq => shiftFirst_of_lt d hq
  have hlast : ∀ q ≤ p, shiftLast p d q = q := fun q hq => shiftLast_of_le d hq
  rw [addTokens_eq] at hb hc ⊢
  obtain ⟨⟨_, seen⟩, hb', rfl⟩ := Option.map_eq_some_iff.1 hb
  obtain ⟨⟨c, ended⟩, hc', rfl⟩ := Option.map_eq_some_iff.1 hc
  have hclear := isClear_of_mapPlaces_eq
    (mapPlaces_eq_of_endsBy hentities (fun _ _ => rfl) (fun q hq => Nat.min_eq_left hq)
      (htexts tail) hb')
  -- both runs agree up to the text, and go on with its characters
  rw [List.foldlM_append, Option.bind_eq_bind, Option.bind_eq_some_iff] at hb' hc'
  obtain ⟨⟨between, seen₁⟩, hbefore, hb'⟩ := hb'
  obtain ⟨⟨m, seen₂⟩, hm, hc'⟩ := hc'
  have hfixed := mapPlaces_eq_of_endsBy hentities hfirst hlast (htexts (tail ++ more)) hm
  rw [List.foldlM_append, hbefore, Option.bind_eq_bind, Option.bind_some] at hm
  rw [foldlM_textTokens] at hb' hm
  obtain ⟨b, hread, heq⟩ := Option.map_eq_some_iff.1 hb'
  obtain ⟨rfl, rfl⟩ := Prod.mk.inj heq
  obtain ⟨m, hread', heq⟩ := Option.map_eq_some_iff.1 hm
  obtain ⟨rfl, rfl⟩ := Prod.mk.inj heq
  obtain ⟨b₀, read, read', fuel₀, hbuffer, hfuel, hsplit⟩ :=
    addChars_append more (.inr rfl) (Nat.lt_succ_self _) hread
  rw [hsplit] at hread'
  -- the comment sets them apart, and what comes behind keeps them so
  have hfollow : FollowApart p (b.levels.headD []) b.spots entities
      (followEntity entities 0 nesting) := followApart_followEntity hbalanced hentities nesting 0
  obtain ⟨m', hread'', hapart⟩ := addChars_apart hfollow (apart_comment hbuffer hclear)
    (.inl ⟨rfl, rfl⟩) (Nat.lt_succ_self more.length) hread'
  have hmapped := foldlM_mapPlaces_of_endsBy hentities hfirst hlast nesting (m, seen₁) behind
  rw [hc', hfixed] at hmapped
  have hshift : behind.map (Token.mapPlaces (shiftFirst p d) (shiftLast p d)) =
      behind.map (Token.mapPlaces (· + d) (· + d)) :=
    List.map_congr_left fun t ht => ((hbehind t ht).mapPlaces d).1.symm
  have hstands : ∀ t ∈ behind.map (Token.mapPlaces (· + d) (· + d)), t.StandsBehind p := by
    intro t ht
    obtain ⟨t', ht', rfl⟩ := List.mem_map.1 ht
    exact ((hbehind t' ht').mapPlaces d).2
  rw [hshift] at hmapped
  obtain ⟨c', spots', inner', hc'', hend⟩ :=
    foldlM_addToken_apart_behind hfollow hstands (List.forall_mem_nil _) hapart hmapped
  have hnone : (c.mapPlaces (shiftFirst p d) (shiftLast p d)).opened = [] :=
    List.map_eq_nil_iff.2 hclosed
  obtain ⟨hclosed', hdiffers⟩ := hend.differs hnone
  refine ⟨c', Option.map_eq_some_iff.2 ⟨(c', ended), ?_, rfl⟩, hclosed', hdiffers⟩
  rw [List.append_assoc, List.foldlM_append, hbefore, Option.bind_eq_bind, Option.bind_some,
    List.foldlM_append, foldlM_textTokens, hread, Option.map_some, Option.bind_eq_bind,
    Option.bind_some, List.foldlM_cons, addToken, Option.bind_eq_bind, Option.bind_some,
    List.foldlM_append, foldlM_textTokens, hread'', Option.map_some, Option.bind_eq_bind,
    Option.bind_some]
  exact hc''

/-- The outermost element stands among the nodes outside all elements. -/
theorem exists_spots_eq {b : Builder} (hopened : b.opened ≠ []) :
    ∃ inside name, b.spots = inside ++ [⟨name, b.top⟩] := by
  obtain ⟨front, e, hlast⟩ : ∃ front e, b.opened = front ++ [e] :=
    ⟨_, _, (List.dropLast_concat_getLast hopened).symm⟩
  have hlevels : b.levels.tail = (b.opened.map (·.children)).tail ++ [b.top] :=
    List.tail_append_of_ne_nil (by simpa using hopened)
  have htags : b.tags.map (·.name.localPart) =
      front.map (·.name.localPart) ++ [e.name.localPart] := by
    simp [tags, hlast, OpenElement.tag]
  have hlength : (front.map (·.name.localPart)).length =
      (b.opened.map (·.children)).tail.length := by
    simp [hlast]
  refine ⟨List.zipWith Spot.mk (front.map (·.name.localPart)) (b.opened.map (·.children)).tail,
    e.name.localPart, ?_⟩
  rw [spots, hlevels, htags, List.zipWith_append hlength]
  rfl

end Builder

/-! ### Documents -/

/-- Where the outermost of the spots is. -/
theorem Differs.exists_inside {base : List Node} {spot : Spot} {spots : List Spot}
    {nodes nodes' : List Node} (h : Differs p base (spot :: spots) nodes nodes') :
    ∃ first last behind inner inner', Differs p base spots inner inner' ∧
      (∀ n ∈ behind ++ spot.before, n.IsClear p) ∧
      nodes = behind ++ .element spot.name first last inner.reverse :: spot.before ∧
      nodes' = behind ++ .element spot.name first last inner'.reverse :: spot.before := by
  cases h with
  | inside hinner hclear => exact ⟨_, _, _, _, _, hinner, hclear, rfl, rfl⟩

/-- If an element is open in a text, its first token has opened the root. -/
theorem exists_openBehind {left : List Char} {entities : List Entity} {tokens : List Token}
    {b : Builder} (htokens : documentTokens left = some (entities, tokens))
    (hcut : .cutTag ∉ tokens)
    (hb : Builder.start.addTokens entities 0 maxEntityDepth tokens = some b)
    (hopened : b.opened ≠ []) :
    ∃ tag inner, tokens = tag :: inner ∧ tag.openBehind 0 = some 1 := by
  obtain ⟨⟨_, c⟩, hdocument, heq⟩ := Option.map_eq_some_iff.1 htokens
  obtain rfl : _ = (entities, tokens) := heq
  obtain ⟨_, _, -, hroot⟩ := Scan.exists_rootElement hdocument
  rcases Scan.rootElement_tokens hroot with
    hnone | hcutTag | ⟨name, attributes, first, last, htag⟩ | h
  · obtain rfl : tokens = [] := hnone
    obtain rfl := Option.some.inj hb
    exact absurd rfl hopened
  · obtain rfl : tokens = [.cutTag] := hcutTag
    exact absurd List.mem_cons_self hcut
  · -- an empty root element leaves nothing open
    obtain rfl : tokens = [.startTag name attributes true first last] := htag
    rw [Builder.addTokens_eq, List.foldlM_cons] at hb
    obtain ⟨u, hu, rfl⟩ := Option.map_eq_some_iff.1 hb
    obtain ⟨between, htag, hu⟩ := Option.bind_eq_some_iff.1 hu
    obtain ⟨c, hc, heq⟩ := Option.bind_eq_some_iff.1 htag
    obtain rfl := Option.some.inj heq
    obtain rfl := Option.some.inj hu
    rw [Builder.addStartTag_eq] at hc
    obtain ⟨found, -, rfl⟩ := Option.map_eq_some_iff.1 hc
    exact absurd rfl hopened
  · exact h

/-- A comment between two parts of a document: if the first part can be read up
    to the comment and its root element is open there, then the document with the
    comment can be read as well, and its tree differs from that without it in the
    element in which the comment stands. There, the children before the comment
    are those read up to it. -/
theorem Document.parse_insert_comment {left right comment : List Char} {b : Builder}
    {document : Document} (hleft : readSoFar? left = some b) (hopened : b.opened ≠ [])
    (htop : b.top = []) (h : Document.parse (.ofList (left ++ right)) = some document)
    (hbalanced : EntitiesBalanced (.ofList (left ++ right))) (hcomment : IsComment comment) :
    ∃ root', Document.parse (.ofList (left ++ (comment ++ right))) =
        some ⟨left ++ (comment ++ right), root'⟩ ∧
      Differs left.length (b.levels.headD []) b.spots.reverse
        [document.root.shifted left.length comment.length] [root'] := by
  obtain ⟨entities, tokens, htokens, hcut, hb⟩ := readSoFar?_eq_some_iff.1 hleft
  obtain ⟨tag, inner, rfl, hopen⟩ := exists_openBehind htokens hcut hb hopened
  rw [Document.parse_eq_some_iff, String.toList_ofList] at h
  obtain ⟨entities', all, c, root, hall, hc, hclosed, hroot, rfl⟩ := h
  rw [List.mem_cons, not_or] at hcut
  obtain ⟨rfl, hwhole⟩ := documentTokens_commented hopen hcut.2 htokens hall
  rcases hwhole with rfl | ⟨ts, behind, tail, more, hbefore, rfl, hlaid, hcommented⟩
  · -- the first part would have closed its root element
    rw [hc] at hb
    obtain rfl := Option.some.inj hb
    exact absurd hclosed hopened
  have hends := documentTokens_endsBy hopen htokens
  have hts : ∀ t ∈ ts, t.EndsBy left.length := fun t ht =>
    hends t (hbefore ▸ List.mem_append_left _ ht)
  have hdeclared : ∀ e ∈ entities', ∀ tokens, e.value.contentTokens = some tokens →
      ∀ t ∈ tokens, t.EndsBy left.length := fun e he tokens hcontent =>
    contentTokens_endsBy ((documentTokens_placed htokens).1 e he) hcontent
  have hentities : ∀ e ∈ entities', e.IsBalanced :=
    hbalanced entities' _ (by rw [String.toList_ofList]; exact hall)
  rw [hbefore] at hb
  obtain ⟨c', hc', hclosed', hdiffers⟩ := Builder.addTokens_commented hentities hdeclared hts
    (hlaid.standsBehind (Nat.le_refl _)) hb hc hclosed comment.length
  obtain ⟨inside, name, hspots⟩ := Builder.exists_spots_eq hopened
  rw [htop] at hspots
  rw [hspots, List.reverse_append] at hdiffers ⊢
  obtain ⟨first, last, after, children, children', hinner, hclear, hnodes, hnodes'⟩ :=
    hdiffers.exists_inside
  -- nothing is read before the root element, so it is the first in both
  have hfound : root.shifted left.length comment.length =
      .element name first last children.reverse := by
    obtain ⟨after₀, rest, htop₀, -, hrest⟩ := List.map_eq_append_iff.1 hnodes
    obtain ⟨n, others, rfl, hn, hothers⟩ := List.map_eq_cons_iff.1 hrest
    obtain rfl := List.map_eq_nil_iff.1 hothers
    have helement : n.isElement = true := by
      rw [← Node.isElement_mapPlaces (f := shiftFirst left.length comment.length)
        (g := shiftLast left.length comment.length)]
      exact congrArg Node.isElement hn
    rw [htop₀, List.reverse_append, List.reverse_singleton, List.singleton_append,
      List.find?_cons_of_pos helement] at hroot
    rw [← Option.some.inj hroot]
    exact hn
  refine ⟨.element name first last children'.reverse, ?_, ?_⟩
  · rw [Document.parse_eq_some_iff, String.toList_ofList]
    refine ⟨entities', _, c', _, hcommented comment hcomment, hc', hclosed', ?_, rfl⟩
    rw [hnodes', List.reverse_append, List.reverse_singleton, List.singleton_append]
    rfl
  · rw [hfound]
    have hroots : Differs left.length (b.levels.headD []) (⟨name, []⟩ :: inside.reverse)
        ([] ++ [.element name first last children.reverse])
        ([] ++ [.element name first last children'.reverse]) := .inside hinner nofun
    exact hroots

end EvalRun.Xml
