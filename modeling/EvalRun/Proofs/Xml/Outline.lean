import EvalRun.Proofs.Xml.Places

/-! # Proofs.Xml.Outline — what qualifiers have no part in

    The *outline* of a tree are its local names, its text and its shape: what
    is left without the places of the elements. The outline of a token has
    neither places nor attributes, and no qualifiers.

    Qualifiers and attributes decide whether a document is well-formed at all.
    If it is, they have no part in its tree: documents whose tokens have the
    same outlines have trees of the same outline (`root_outline_eq`). The tree
    is built token by token, and so is the proof: two builders with the same
    outline are followed over two lists of tokens, and through the entities
    that the references in them name.
-/

namespace EvalRun.Xml

/-! ### Trees -/

namespace Node

mutual

/-- A tree without the places of its elements. -/
def outline : Node → Node
  | element name _ _ children => element name 0 0 (outlineAll children)
  | text chars => text chars
  | comment => comment
  | instruction => instruction

/-- Several trees without the places of their elements. -/
def outlineAll : List Node → List Node
  | [] => []
  | n :: rest => outline n :: outlineAll rest

end

theorem outlineAll_eq_map (trees : List Node) : outlineAll trees = trees.map outline := by
  induction trees with
  | nil => rfl
  | cons n rest ih => rw [outlineAll, ih, List.map_cons]

theorem outline_element (name : List Char) (first last : Nat) (children : List Node) :
    (element name first last children).outline = element name 0 0 (children.map outline) := by
  rw [outline, outlineAll_eq_map]

/-- Without its places, all places of a tree are the same. -/
theorem outline_eq_mapPlaces (n : Node) : n.outline = n.mapPlaces (fun _ => 0) (fun _ => 0) := by
  cases n with
  | element name first last children =>
    rw [outline_element, mapPlaces_element]
    exact congrArg _ (List.map_congr_left fun child hchild => outline_eq_mapPlaces child)
  | text | comment | instruction => rfl

theorem outline_eq : outline = mapPlaces (fun _ => 0) (fun _ => 0) := funext outline_eq_mapPlaces

@[simp] theorem isElement_outline (n : Node) : n.outline.isElement = n.isElement := by
  rw [outline_eq, isElement_mapPlaces]

@[simp] theorem localName_outline (n : Node) : n.outline.localName = n.localName := by
  rw [outline_eq, localName_mapPlaces]

@[simp] theorem leadingText_outline (n : Node) : n.outline.leadingText = n.leadingText := by
  rw [outline_eq, leadingText_mapPlaces]

@[simp] theorem isNamed_outline (name : String) (n : Node) :
    isNamed name n.outline = isNamed name n := by
  rw [outline_eq, isNamed_mapPlaces]

theorem elements_outline (n : Node) : n.outline.elements = n.elements.map outline := by
  rw [outline_eq, elements_mapPlaces]

theorem childrenNamed_outline (name : String) (n : Node) :
    n.outline.childrenNamed name = (n.childrenNamed name).map outline := by
  rw [outline_eq, childrenNamed_mapPlaces]

/-- The elements at the end of a path are found in the outline too. -/
theorem select_outline (n : Node) (path : List String) :
    n.outline.select path = (n.select path).map outline := by
  rw [outline_eq, select_mapPlaces]

end Node

/-! ### Tokens -/

deriving instance DecidableEq for Token

/-- A token without qualifiers, attributes and places. -/
def Token.outline : Token → Token
  | startTag name _ isEmpty _ _ => startTag ⟨[], name.localPart⟩ [] isEmpty 0 0
  | endTag name _ => endTag ⟨[], name.localPart⟩ 0
  | text chars => text chars
  | cdata chars => cdata chars
  | comment => comment
  | instruction => instruction
  | cutTag => cutTag

/-- Entities of the same name stand for tokens of the same outlines. -/
def SameEntities (entities entities' : List Entity) : Prop :=
  ∀ name value value' tokens tokens',
    findEntity? entities name = some value → findEntity? entities' name = some value' →
    value.contentTokens = some tokens → value'.contentTokens = some tokens' →
    tokens.map Token.outline = tokens'.map Token.outline

/-- The texts are the same documents but for qualifiers, attributes and where
    everything stands. -/
def SameOutline (text text' : String) : Prop :=
  ∃ entities entities' tokens tokens',
    documentTokens text.toList = some (entities, tokens) ∧
    documentTokens text'.toList = some (entities', tokens') ∧
    tokens.map Token.outline = tokens'.map Token.outline ∧ SameEntities entities entities'

/-- Where a document declares no entity, the outlines of the tokens decide. -/
theorem sameOutline_of_map_eq {text text' : String} {document : Document}
    (hdocument : Document.parse text = some document)
    (h : (documentTokens text.toList).map
        (fun found => (found.1.isEmpty, found.2.map Token.outline)) =
      (documentTokens text'.toList).map fun found => (true, found.2.map Token.outline)) :
    SameOutline text text' := by
  obtain ⟨entities, tokens, -, -, hread, -⟩ := Document.parse_eq_some_iff.1 hdocument
  rw [hread, Option.map_some, eq_comm, Option.map_eq_some_iff] at h
  obtain ⟨⟨entities', tokens'⟩, hread', h⟩ := h
  obtain ⟨hnone, htokens⟩ := Prod.mk.inj h
  refine ⟨entities, entities', tokens, tokens', hread, hread', htokens.symm, ?_⟩
  intro name value value' inner inner' hvalue
  obtain rfl : entities = [] := List.isEmpty_iff.1 hnone.symm
  cases hvalue

/-! ### The builder -/

namespace Builder

/-- A builder whose nodes and open elements are without qualifiers and
    places. -/
def outline (b : Builder) : Builder where
  opened := b.opened.map fun e => ⟨⟨[], e.name.localPart⟩, 0, [], e.children.map Node.outline⟩
  top := b.top.map Node.outline
  references := 0

/-- The number of references followed is not in the outline. -/
theorem outline_counted {b b' : Builder} (h : b.outline = b'.outline)
    (references references' : Nat) :
    ({ b with references } : Builder).outline =
      ({ b' with references := references' } : Builder).outline := h

theorem outline_mapChildren {f g : List Node → List Node}
    (h : ∀ nodes, (f nodes).map Node.outline = g (nodes.map Node.outline)) (b : Builder) :
    (b.mapChildren f).outline = b.outline.mapChildren g := by
  unfold mapChildren outline
  cases b.opened with
  | nil => simp [h]
  | cons e outer => simp [h]

theorem outline_addNode (b : Builder) (n : Node) :
    (b.addNode n).outline = b.outline.addNode n.outline :=
  outline_mapChildren (f := (n :: ·)) (g := (n.outline :: ·)) (fun _ => rfl) b

theorem outline_addText (b : Builder) (chars : List Char) :
    (b.addText chars).outline = b.outline.addText chars := by
  refine outline_mapChildren (fun nodes => ?_) b
  cases nodes with
  | nil => rfl
  | cons n rest =>
    cases n with
    | element => simp [Node.outline]
    | text | comment | instruction => rfl

theorem outline_addBuffer (b : Builder) (buffer : TextBuffer) :
    (b.addBuffer buffer).outline = b.outline.addBuffer buffer := by
  unfold addBuffer
  split
  · rfl
  · exact outline_addText b _

/-- A start tag that is taken in does to the outline what its local name
    says. -/
theorem outline_addStartTag {b c : Builder} {entities : List Entity} {depth nesting : Nat}
    {name : Name} {attributes : List RawAttribute} {isEmpty : Bool} {first last : Nat}
    (h : b.addStartTag entities depth nesting name attributes isEmpty first last = some c) :
    c.outline = if isEmpty then b.outline.addNode (.element name.localPart 0 0 [])
      else { b.outline with opened := ⟨⟨[], name.localPart⟩, 0, [], []⟩ :: b.outline.opened } := by
  unfold addStartTag at h
  split at h
  · cases h
  · simp only [Option.bind_eq_bind, Option.bind_eq_some_iff] at h
    obtain ⟨⟨values, references⟩, -, t, -, h⟩ := h
    split at h
    · split at h
      · rename_i hempty
        rw [← Option.some.inj h, if_pos hempty, outline_addNode, Node.outline_element]
        rfl
      · rename_i hempty
        rw [← Option.some.inj h, if_neg hempty]
        rfl
    · cases h

/-- An end tag that is taken in closes the innermost element of the outline. -/
theorem outline_addEndTag {b c : Builder} {name : Name} {last : Nat}
    (h : b.addEndTag name last = some c) :
    b.outline.addEndTag ⟨[], name.localPart⟩ 0 = some c.outline := by
  cases b with
  | mk opened top references =>
    cases opened with
    | nil => cases h
    | cons e outer =>
      simp only [addEndTag] at h
      split at h
      · rename_i hname
        rw [← Option.some.inj h, outline_addNode, Node.outline_element]
        simp [addEndTag, outline, hname]
      · cases h

/-! ### Two builders -/

variable {entities entities' : List Entity} {depth nesting : Nat}
  {follow follow' : Builder → Cursor → Option Builder}

/-- Taking in the entities of one name keeps two outlines the same. -/
def FollowAlike (entities entities' : List Entity)
    (follow follow' : Builder → Cursor → Option Builder) : Prop :=
  ∀ name value value' b b' c c',
    findEntity? entities name = some value → findEntity? entities' name = some value' →
    b.outline = b'.outline → follow b value = some c → follow' b' value' = some c' →
    c.outline = c'.outline

/-- The same character data keeps two outlines the same. -/
theorem outline_addChars (hfollow : FollowAlike entities entities' follow follow') {fuel : Nat}
    {b b' c c' : Builder} {buffer : TextBuffer} {cs : List Char} (hb : b.outline = b'.outline)
    (h : addChars entities depth follow fuel b buffer cs = some c)
    (h' : addChars entities' depth follow' fuel b' buffer cs = some c') :
    c.outline = c'.outline := by
  induction fuel generalizing b b' buffer cs with
  | zero => cases h
  | succ fuel ih =>
    unfold addChars at h h'
    cases cs with
    | nil =>
      rw [← Option.some.inj h, ← Option.some.inj h', outline_addBuffer, outline_addBuffer, hb]
    | cons char rest =>
      simp only at h h'
      split at h
      · rename_i hplain
        rw [if_pos hplain] at h'
        exact ih hb h h'
      · rename_i hreference
        rw [if_neg hreference] at h'
        simp only [Option.bind_eq_bind, Option.bind_eq_some_iff] at h h'
        obtain ⟨⟨reference, behind⟩, hscan, h⟩ := h
        obtain ⟨⟨reference', behind'⟩, hscan', h'⟩ := h'
        obtain ⟨rfl, rfl⟩ := Prod.mk.inj (Option.some.inj (hscan.symm.trans hscan'))
        cases reference with
        | char referenced => exact ih hb h h'
        | entity name =>
          simp only [Option.bind_eq_some_iff] at h h'
          obtain ⟨value, hvalue, references, -, inner, hinner, h⟩ := h
          obtain ⟨value', hvalue', references', -, inner', hinner', h'⟩ := h'
          have hbuffered : (b.addBuffer buffer).outline = (b'.addBuffer buffer).outline := by
            rw [outline_addBuffer, outline_addBuffer, hb]
          have hinside := hfollow name value value' _ _ inner inner' hvalue hvalue'
            (outline_counted hbuffered references references') hinner hinner'
          exact ih (outline_counted hinside _ _) h h'

/-- Tokens of one outline keep two outlines the same. -/
theorem outline_addToken (hfollow : FollowAlike entities entities' follow follow')
    {s s' u u' : Builder × Bool} {t t' : Token} (hs : s.1.outline = s'.1.outline)
    (ht : t.outline = t'.outline) (h : addToken entities depth nesting follow s t = some u)
    (h' : addToken entities' depth nesting follow' s' t' = some u') :
    u.1.outline = u'.1.outline := by
  obtain ⟨b, seen⟩ := s
  obtain ⟨b', seen'⟩ := s'
  have hb : b.outline = b'.outline := hs
  -- tokens of the same outline are of one kind
  cases t with
  | startTag name attributes isEmpty first last =>
    cases t' with
    | startTag name' attributes' isEmpty' first' last' =>
      simp only [Token.outline, Token.startTag.injEq, Name.mk.injEq, true_and, and_true] at ht
      obtain ⟨hname, rfl⟩ := ht
      obtain ⟨c, hc, hu⟩ := Option.bind_eq_some_iff.1 h
      obtain ⟨c', hc', hu'⟩ := Option.bind_eq_some_iff.1 h'
      obtain rfl := Option.some.inj hu
      obtain rfl := Option.some.inj hu'
      simp only [outline_addStartTag hc, outline_addStartTag hc', hname, hb]
    | _ => cases ht
  | endTag name last =>
    cases t' with
    | endTag name' last' =>
      simp only [Token.outline, Token.endTag.injEq, Name.mk.injEq, true_and, and_true] at ht
      simp only [addToken] at h h'
      split at h
      · split at h'
        · obtain ⟨c, hc, hu⟩ := Option.bind_eq_some_iff.1 h
          obtain ⟨c', hc', hu'⟩ := Option.bind_eq_some_iff.1 h'
          obtain rfl := Option.some.inj hu
          obtain rfl := Option.some.inj hu'
          have hend := outline_addEndTag hc
          rw [hb, ht, outline_addEndTag hc'] at hend
          exact (Option.some.inj hend).symm
        · cases h'
      · cases h
    | _ => cases ht
  | text cs =>
    cases t' with
    | text cs' =>
      obtain rfl := Token.text.inj ht
      obtain ⟨c, hc, hu⟩ := Option.bind_eq_some_iff.1 h
      obtain ⟨c', hc', hu'⟩ := Option.bind_eq_some_iff.1 h'
      obtain rfl := Option.some.inj hu
      obtain rfl := Option.some.inj hu'
      exact outline_addChars hfollow hb hc hc'
    | _ => cases ht
  | cdata cs =>
    cases t' with
    | cdata cs' =>
      obtain rfl := Token.cdata.inj ht
      cases h
      cases h'
      rw [outline_addText, outline_addText, hb]
    | _ => cases ht
  | comment =>
    cases t' with
    | comment =>
      cases h
      cases h'
      rw [outline_addNode, outline_addNode, hb]
    | _ => cases ht
  | instruction =>
    cases t' with
    | instruction =>
      cases h
      cases h'
      rw [outline_addNode, outline_addNode, hb]
    | _ => cases ht
  | cutTag =>
    cases t' with
    | cutTag =>
      cases h
      cases h'
      exact hb
    | _ => cases ht

/-- And so do lists of such tokens. -/
theorem outline_foldlM_addToken (hfollow : FollowAlike entities entities' follow follow')
    {s s' u u' : Builder × Bool} {tokens tokens' : List Token}
    (hs : s.1.outline = s'.1.outline)
    (htokens : tokens.map Token.outline = tokens'.map Token.outline)
    (h : tokens.foldlM (addToken entities depth nesting follow) s = some u)
    (h' : tokens'.foldlM (addToken entities' depth nesting follow') s' = some u') :
    u.1.outline = u'.1.outline := by
  induction tokens generalizing s s' tokens' with
  | nil =>
    obtain rfl := List.map_eq_nil_iff.1 htokens.symm
    cases h
    cases h'
    exact hs
  | cons t rest ih =>
    obtain ⟨t', rest', rfl, ht, hrest⟩ := List.map_eq_cons_iff.1 htokens.symm
    rw [List.foldlM_cons, Option.bind_eq_bind, Option.bind_eq_some_iff] at h h'
    obtain ⟨between, hfirst, h⟩ := h
    obtain ⟨between', hfirst', h'⟩ := h'
    exact ih (outline_addToken hfollow hs ht.symm hfirst hfirst') hrest.symm h h'

/-- However deep the references go. -/
theorem outline_addTokens (hentities : SameEntities entities entities') {b b' c c' : Builder}
    {tokens tokens' : List Token} (hb : b.outline = b'.outline)
    (htokens : tokens.map Token.outline = tokens'.map Token.outline)
    (h : addTokens entities depth nesting b tokens = some c)
    (h' : addTokens entities' depth nesting b' tokens' = some c') : c.outline = c'.outline := by
  induction nesting generalizing depth b b' c c' tokens tokens' with
  | zero =>
    obtain ⟨u, hu, rfl⟩ := Option.map_eq_some_iff.1 h
    obtain ⟨u', hu', rfl⟩ := Option.map_eq_some_iff.1 h'
    have hfollow : FollowAlike entities entities' (fun _ _ => none) fun _ _ => none := by
      intro _ _ _ _ _ _ _ _ _ _ hnone
      cases hnone
    exact outline_foldlM_addToken hfollow hb htokens hu hu'
  | succ nesting ih =>
    obtain ⟨u, hu, rfl⟩ := Option.map_eq_some_iff.1 h
    obtain ⟨u', hu', rfl⟩ := Option.map_eq_some_iff.1 h'
    refine outline_foldlM_addToken ?_ hb htokens hu hu'
    intro name value value' b b' c c' hvalue hvalue' hb h h'
    obtain ⟨inner, hinner, h⟩ := Option.bind_eq_some_iff.1 h
    obtain ⟨inner', hinner', h'⟩ := Option.bind_eq_some_iff.1 h'
    exact ih hb (hentities name value value' inner inner' hvalue hvalue' hinner hinner') h h'

end Builder

/-! ### Documents -/

/-- Documents that are the same but for qualifiers, attributes and places have
    trees of the same outline. -/
theorem SameOutline.root_outline_eq {text text' : String} (h : SameOutline text text')
    {document document' : Document} (hdocument : Document.parse text = some document)
    (hdocument' : Document.parse text' = some document') :
    document.root.outline = document'.root.outline := by
  obtain ⟨entities, entities', tokens, tokens', hread, hread', htokens, hentities⟩ := h
  obtain ⟨_, _, b, root, htext, hb, -, hroot, rfl⟩ := Document.parse_eq_some_iff.1 hdocument
  obtain ⟨_, _, b', root', htext', hb', -, hroot', rfl⟩ := Document.parse_eq_some_iff.1 hdocument'
  obtain ⟨rfl, rfl⟩ := Prod.mk.inj (Option.some.inj (hread.symm.trans htext))
  obtain ⟨rfl, rfl⟩ := Prod.mk.inj (Option.some.inj (hread'.symm.trans htext'))
  have htop : b.top.map Node.outline = b'.top.map Node.outline :=
    congrArg Builder.top (Builder.outline_addTokens hentities rfl htokens hb hb')
  have hfound := congrArg (fun top => top.reverse.find? Node.isElement) htop
  simp only [← List.map_reverse, List.find?_map, Function.comp_def, Node.isElement_outline,
    hroot, hroot', Option.map_some, Option.some.injEq] at hfound
  exact hfound

end EvalRun.Xml
