import EvalRun.Proofs.Xml.Placement
import EvalRun.Proofs.Xml.Selection
import EvalRun.Xml.Document

/-! # Proofs.Xml.Written — every element is written with some characters

    The end tag of an element lies behind its start tag if both are tokens of
    one text. They need not be: a reference brings the tokens of an entity,
    and these may close an element that another text opened. Where every
    entity closes the elements that it opens and no other (`IsBalanced`), each
    element of a tree is written with a character at least
    (`Document.isWritten_root`).

    The tree is built token by token, and so is the proof. The builder keeps
    the places of the open elements; what one token does to them decides what
    all tokens of a text do, and an entity that is balanced leaves them as
    they were.
-/

namespace EvalRun.Xml

variable {chars : List Char}

/-! ### Balanced entities -/

/-- The number of elements of a text that are open behind a token: nothing if
    the token closes an element that the text did not open. -/
def Token.openBehind (opened : Nat) : Token → Option Nat
  | .startTag _ _ false _ _ => some (opened + 1)
  | .endTag _ _ =>
    match opened with
    | 0 => none
    | before + 1 => some before
  | _ => some opened

/-- The text of the entity, read as content, closes every element that it
    opens, and no other. -/
def Entity.IsBalanced (e : Entity) : Prop :=
  ∀ tokens, e.value.contentTokens = some tokens → tokens.foldlM Token.openBehind 0 = some 0

/-- All entities of a document are balanced. -/
def EntitiesBalanced (text : String) : Prop :=
  ∀ entities tokens, documentTokens text.toList = some (entities, tokens) →
    ∀ e ∈ entities, e.IsBalanced

instance (e : Entity) : Decidable e.IsBalanced :=
  decidable_of_iff
    (e.value.contentTokens.all (fun tokens => tokens.foldlM Token.openBehind 0 = some 0) = true)
    (by simp [Entity.IsBalanced, Option.all_eq_true])

instance (text : String) : Decidable (EntitiesBalanced text) :=
  decidable_of_iff
    ((documentTokens text.toList).all (fun found => found.1.all fun e => e.IsBalanced) = true)
    (by simp [EntitiesBalanced, Option.all_eq_true])

/-! ### Written elements -/

/-- Every element of a tree is written with a character of the document at
    least. -/
def Node.IsWritten (chars : List Char) (n : Node) : Prop :=
  ∀ found ∈ n.walk, found.2.source chars ≠ []

theorem Node.isWritten_element {name : List Char} {first last : Nat} {children : List Node}
    (horder : first < last) (hinside : first < chars.length)
    (hchildren : ∀ n ∈ children, n.IsWritten chars) :
    (Node.element name first last children).IsWritten chars := by
  intro found hfound
  rw [walk, List.mem_cons] at hfound
  rcases hfound with rfl | hfound
  · have hlength : ((chars.drop first).take (last - first)).length ≠ 0 := by
      rw [List.length_take, List.length_drop]
      omega
    intro hnone
    exact hlength (List.length_eq_zero_iff.2 hnone)
  · obtain ⟨inner, hinner, rfl⟩ := List.mem_map.1 hfound
    rw [walkAll_eq_flatMap] at hinner
    obtain ⟨n, hn, hwalk⟩ := List.mem_flatMap.1 hinner
    exact hchildren n hn inner hwalk

/-- What is written inside a written element is written. -/
theorem Node.IsWritten.of_mem_children {n child : Node} (h : n.IsWritten chars)
    (hchild : child ∈ n.children) : child.IsWritten chars := by
  intro found hfound
  cases n with
  | element name first last children =>
    apply h (name :: found.1, found.2)
    rw [walk, List.mem_cons, walkAll_eq_flatMap]
    exact .inr (List.mem_map.2 ⟨found, List.mem_flatMap.2 ⟨child, hchild, hfound⟩, rfl⟩)
  | text | comment | instruction => cases hchild

/-- The elements at a path are written if the element is that it starts from. -/
theorem Node.IsWritten.source_ne_nil {n e : Node} {path : List String} (h : n.IsWritten chars)
    (he : e ∈ n.reached path) : e.source chars ≠ [] := by
  obtain ⟨found, hfound, rfl⟩ := List.mem_map.1 he
  have hwalk := (List.mem_filter.1 hfound).1
  rw [walkAll_eq_flatMap] at hwalk
  obtain ⟨child, hchild, hfound⟩ := List.mem_flatMap.1 hwalk
  exact h.of_mem_children hchild found hfound

/-- What is no element has no element inside. -/
theorem Node.isWritten_of_not_isElement {n : Node} (hn : n.isElement = false) :
    n.IsWritten chars := by
  cases n with
  | element => cases hn
  | text | comment | instruction => exact nofun

namespace Builder

/-- All nodes of the builder are written with some characters. -/
structure IsWritten (chars : List Char) (b : Builder) : Prop where
  opened : ∀ e ∈ b.opened, ∀ n ∈ e.children, n.IsWritten chars
  top : ∀ n ∈ b.top, n.IsWritten chars

/-- The places of the elements that are open, the innermost first. -/
def places (b : Builder) : List Nat := b.opened.map (·.first)

/-- A change of the builder that leaves the open elements where they are and
    adds nothing that is not written. -/
def Keeps (chars : List Char) (b b' : Builder) : Prop :=
  b.IsWritten chars → b'.IsWritten chars ∧ b'.places = b.places

theorem Keeps.refl (b : Builder) : Keeps chars b b := fun h => ⟨h, rfl⟩

theorem Keeps.trans {b₁ b₂ b₃ : Builder} (h : Keeps chars b₁ b₂) (h' : Keeps chars b₂ b₃) :
    Keeps chars b₁ b₃ := by
  intro hwritten
  obtain ⟨hwritten, hplaces⟩ := h hwritten
  obtain ⟨hwritten, hplaces'⟩ := h' hwritten
  exact ⟨hwritten, hplaces'.trans hplaces⟩

/-- The number of references followed has no part in it. -/
theorem keeps_references (b : Builder) (references : Nat) :
    Keeps chars b { b with references } := fun h => ⟨⟨h.opened, h.top⟩, rfl⟩

theorem places_mapChildren (b : Builder) (f : List Node → List Node) :
    (b.mapChildren f).places = b.places := by
  unfold mapChildren places
  cases b.opened with
  | nil => rfl
  | cons e outer => rfl

theorem keeps_mapChildren {b : Builder} {f : List Node → List Node}
    (hf : ∀ nodes, (∀ n ∈ nodes, n.IsWritten chars) → ∀ n ∈ f nodes, n.IsWritten chars) :
    Keeps chars b (b.mapChildren f) := by
  intro h
  refine ⟨?_, places_mapChildren b f⟩
  cases b with
  | mk opened top references =>
    cases opened with
    | nil => exact ⟨h.opened, hf _ h.top⟩
    | cons e outer =>
      refine ⟨?_, h.top⟩
      simp only [mapChildren, List.forall_mem_cons]
      exact ⟨hf _ (h.opened e List.mem_cons_self),
        fun o ho => h.opened o (List.mem_cons_of_mem e ho)⟩

theorem keeps_addNode {b : Builder} {n : Node} (hn : n.IsWritten chars) :
    Keeps chars b (b.addNode n) :=
  keeps_mapChildren fun _ hnodes => List.forall_mem_cons.2 ⟨hn, hnodes⟩

theorem keeps_addText (b : Builder) (cs : List Char) : Keeps chars b (b.addText cs) := by
  refine keeps_mapChildren fun nodes hnodes => ?_
  split
  · exact List.forall_mem_cons.2
      ⟨Node.isWritten_of_not_isElement rfl, (List.forall_mem_cons.1 hnodes).2⟩
  · exact List.forall_mem_cons.2 ⟨Node.isWritten_of_not_isElement rfl, hnodes⟩

theorem keeps_addBuffer (b : Builder) (buffer : TextBuffer) :
    Keeps chars b (b.addBuffer buffer) := by
  unfold addBuffer
  split
  · exact .refl b
  · exact keeps_addText b _

/-! ### Tags -/

/-- A start tag adds an empty element, or opens one at its place. -/
theorem addStartTag_eq_some {b b' : Builder} {entities : List Entity} {depth nesting : Nat}
    {name : Name} {attributes : List RawAttribute} {isEmpty : Bool} {first last : Nat}
    (horder : first < last) (hinside : first < chars.length) (hwritten : b.IsWritten chars)
    (h : b.addStartTag entities depth nesting name attributes isEmpty first last = some b') :
    b'.IsWritten chars ∧ b'.places = if isEmpty then b.places else first :: b.places := by
  unfold addStartTag at h
  split at h
  · cases h
  · simp only [Option.bind_eq_bind, Option.bind_eq_some_iff] at h
    obtain ⟨⟨values, references⟩, -, t, -, h⟩ := h
    split at h
    · have hcounted := (keeps_references b references) hwritten
      split at h
      · rename_i hempty
        rw [← Option.some.inj h, if_pos hempty]
        exact keeps_addNode (Node.isWritten_element horder hinside nofun) hcounted.1
      · rename_i hempty
        rw [← Option.some.inj h, if_neg hempty]
        refine ⟨⟨?_, hwritten.top⟩, rfl⟩
        exact List.forall_mem_cons.2 ⟨nofun, hwritten.opened⟩
    · cases h

/-- An end tag closes the innermost element, which is written if it was opened
    at an earlier place. -/
theorem addEndTag_eq_some {b b' : Builder} {name : Name} {last : Nat}
    (hwritten : b.IsWritten chars) (h : b.addEndTag name last = some b') :
    ∃ first, b.places = first :: b'.places ∧
      (first < last → first < chars.length → b'.IsWritten chars) := by
  cases b with
  | mk opened top references =>
    cases opened with
    | nil => cases h
    | cons e outer =>
      simp only [addEndTag] at h
      split at h
      · have hchildren := hwritten.opened e List.mem_cons_self
        have houter : IsWritten chars ⟨outer, top, references⟩ :=
          ⟨fun o ho => hwritten.opened o (List.mem_cons_of_mem e ho), hwritten.top⟩
        refine ⟨e.first, ?_, fun horder hinside => ?_⟩
        · rw [← Option.some.inj h, addNode, places_mapChildren]
          rfl
        rw [← Option.some.inj h]
        refine (keeps_addNode (Node.isWritten_element horder hinside fun n hn => ?_) houter).1
        exact hchildren n (List.mem_reverse.1 hn)
      · cases h

/-! ### Character data -/

/-- Character data keeps the builder, as long as the entities in it do. -/
theorem addChars_keeps {entities : List Entity} {depth : Nat}
    {follow : Builder → Cursor → Option Builder}
    (hfollow : ∀ e ∈ entities, ∀ b b', follow b e.value = some b' → Keeps chars b b')
    {fuel : Nat} {b b' : Builder} {buffer : TextBuffer} {cs : List Char}
    (h : addChars entities depth follow fuel b buffer cs = some b') : Keeps chars b b' := by
  induction fuel generalizing b buffer cs with
  | zero => cases h
  | succ fuel ih =>
    unfold addChars at h
    cases cs with
    | nil =>
      rw [← Option.some.inj h]
      exact keeps_addBuffer b buffer
    | cons c rest =>
      simp only at h
      split at h
      · exact ih h
      · simp only [Option.bind_eq_bind, Option.bind_eq_some_iff] at h
        obtain ⟨⟨reference, behind⟩, -, h⟩ := h
        cases reference with
        | char c => exact ih h
        | entity name =>
          simp only [Option.bind_eq_some_iff] at h
          obtain ⟨value, hvalue, references, -, inner, hinner, h⟩ := h
          obtain ⟨e, hfind, rfl⟩ := Option.map_eq_some_iff.1 hvalue
          have hentity := hfollow e (List.mem_of_find?_eq_some hfind) _ _ hinner
          -- the text before the entity, the entity, and the text behind it
          exact (keeps_addBuffer b buffer).trans <| (keeps_references _ references).trans <|
            hentity.trans <| (keeps_references _ _).trans (ih h)

/-! ### All tokens of a text -/

/-- What the builder is while the tokens of a text are taken in: `outer` are
    the places of the elements that were open before, and those opened since
    stand in front of the place reached. -/
structure Stands (chars : List Char) (outer : List Nat) (opened place : Nat) (b : Builder) :
    Prop where
  written : b.IsWritten chars
  places : ∃ inner, b.places = inner ++ outer ∧ inner.length = opened ∧
    ∀ first ∈ inner, first < place ∧ first < chars.length

theorem Stands.keeps {outer : List Nat} {opened place behind : Nat} {b b' : Builder}
    (h : Stands chars outer opened place b) (hkeeps : Keeps chars b b') (hle : place ≤ behind) :
    Stands chars outer opened behind b' := by
  obtain ⟨hwritten, hplaces⟩ := hkeeps h.written
  obtain ⟨inner, hinner, hlength, hfirst⟩ := h.places
  refine ⟨hwritten, inner, hplaces.trans hinner, hlength, fun first hmem => ?_⟩
  have := hfirst first hmem
  omega

variable {entities : List Entity} {depth nesting : Nat} {follow : Builder → Cursor → Option Builder}
  {outer : List Nat} {opened place behind : Nat} {t : Token} {s s' : Builder × Bool}

/-- A start tag of a text opens an element at the place reached, or none. -/
theorem addStartTag_stands {b b' : Builder} {name : Name} {attributes : List RawAttribute}
    {isEmpty : Bool} {first last : Nat} (hs : Stands chars outer opened place b)
    (ht : (Token.startTag name attributes isEmpty first last).LiesBetween chars place behind)
    (h : b.addStartTag entities depth nesting name attributes isEmpty first last = some b') :
    Stands chars outer (if isEmpty then opened else opened + 1) behind b' := by
  obtain ⟨hplace, horder, hbehind, hinside⟩ := ht
  obtain ⟨hwritten, hplaces⟩ := addStartTag_eq_some horder hinside hs.written h
  obtain ⟨inner, hinner, hlength, hfirst⟩ := hs.places
  have hbefore : ∀ f ∈ inner, f < behind ∧ f < chars.length := by
    intro f hf
    have := hfirst f hf
    omega
  cases isEmpty with
  | true => exact ⟨hwritten, inner, hplaces.trans hinner, hlength, hbefore⟩
  | false =>
    refine ⟨hwritten, first :: inner, ?_, congrArg (· + 1) hlength, ?_⟩
    · rw [hplaces, hinner]
      rfl
    · exact List.forall_mem_cons.2 ⟨⟨by omega, hinside⟩, hbefore⟩

/-- An end tag of a text that has an element open closes it, and the element
    is written. -/
theorem addEndTag_stands {b b' : Builder} {name : Name} {last : Nat}
    (hs : Stands chars outer (opened + 1) place b)
    (ht : (Token.endTag name last).LiesBetween chars place behind)
    (h : b.addEndTag name last = some b') : Stands chars outer opened behind b' := by
  obtain ⟨horder, hbehind⟩ := ht
  obtain ⟨first, hplaces, hclosed⟩ := addEndTag_eq_some hs.written h
  obtain ⟨inner, hinner, hlength, hfirst⟩ := hs.places
  cases inner with
  | nil => cases hlength
  | cons f inner =>
    obtain ⟨rfl, hrest⟩ := List.cons.inj (hplaces.symm.trans hinner)
    obtain ⟨hf, hbefore⟩ := List.forall_mem_cons.1 hfirst
    refine ⟨hclosed (by omega) hf.2, inner, hrest, Nat.succ.inj hlength, fun e he => ?_⟩
    have := hbefore e he
    omega

/-- One token opens an element at the place reached, closes one that its text
    has opened, or keeps the builder. With no other elements around, it can
    only close one of its own text. -/
theorem addToken_stands
    (hfollow : ∀ e ∈ entities, ∀ b b', follow b e.value = some b' → Keeps chars b b')
    (hs : Stands chars outer opened place s.1) (ht : t.LiesBetween chars place behind)
    (h : addToken entities depth nesting follow s t = some s') :
    (∀ opened', t.openBehind opened = some opened' → Stands chars outer opened' behind s'.1) ∧
      (outer = [] → ∃ opened', t.openBehind opened = some opened') := by
  obtain ⟨b, seen⟩ := s
  have hkept {b' : Builder} (hle : place ≤ behind) (hkeeps : Keeps chars b b') :
      (∀ opened', some opened = some opened' → Stands chars outer opened' behind b') ∧
        (outer = [] → ∃ opened', some opened = some opened') :=
    ⟨fun _ heq => Option.some.inj heq ▸ hs.keeps hkeeps hle, fun _ => ⟨_, rfl⟩⟩
  cases t with
  | startTag name attributes isEmpty first last =>
    obtain ⟨b', hb', hs'⟩ := Option.bind_eq_some_iff.1 h
    obtain rfl := Option.some.inj hs'
    have hstands := addStartTag_stands hs ht hb'
    cases isEmpty with
    | true => exact ⟨fun _ heq => Option.some.inj heq ▸ hstands, fun _ => ⟨_, rfl⟩⟩
    | false => exact ⟨fun _ heq => Option.some.inj heq ▸ hstands, fun _ => ⟨_, rfl⟩⟩
  | endTag name last =>
    simp only [addToken] at h
    split at h
    · obtain ⟨b', hb', hs'⟩ := Option.bind_eq_some_iff.1 h
      obtain rfl := Option.some.inj hs'
      cases opened with
      | zero =>
        refine ⟨nofun, ?_⟩
        rintro rfl
        obtain ⟨first, hplaces, -⟩ := addEndTag_eq_some hs.written hb'
        obtain ⟨inner, hinner, hlength, -⟩ := hs.places
        rw [hplaces, List.length_eq_zero_iff.1 hlength] at hinner
        cases hinner
      | succ opened =>
        exact ⟨fun _ heq => Option.some.inj heq ▸ addEndTag_stands hs ht hb', fun _ => ⟨_, rfl⟩⟩
    · cases h
  | text cs =>
    obtain ⟨b', hb', hs'⟩ := Option.bind_eq_some_iff.1 h
    obtain rfl := Option.some.inj hs'
    exact hkept ht (addChars_keeps hfollow hb')
  | cdata cs =>
    cases h
    exact hkept ht (keeps_addText b _)
  | comment | instruction =>
    cases h
    exact hkept ht (keeps_addNode (Node.isWritten_of_not_isElement rfl))
  | cutTag =>
    cases h
    exact hkept ht (.refl b)

/-- The tokens of a balanced text leave the elements open that were open
    before it. -/
theorem foldlM_addToken_keeps
    (hfollow : ∀ e ∈ entities, ∀ b b', follow b e.value = some b' → Keeps chars b b')
    {tokens : List Token} (hlaid : Laid chars place tokens)
    (hbalanced : tokens.foldlM Token.openBehind opened = some 0)
    (hs : Stands chars outer opened place s.1)
    (h : tokens.foldlM (addToken entities depth nesting follow) s = some s') :
    s'.1.IsWritten chars ∧ s'.1.places = outer := by
  induction hlaid generalizing opened s with
  | nil place =>
    cases h
    cases hbalanced
    obtain ⟨inner, hinner, hlength, -⟩ := hs.places
    rw [List.length_eq_zero_iff.1 hlength] at hinner
    exact ⟨hs.written, hinner⟩
  | cons hlies _ ih =>
    rw [List.foldlM_cons, Option.bind_eq_bind, Option.bind_eq_some_iff] at h hbalanced
    obtain ⟨between, hfirst, hrest⟩ := h
    obtain ⟨opened', hopen, hbalanced⟩ := hbalanced
    exact ih hbalanced ((addToken_stands hfollow hs hlies hfirst).1 opened' hopen) hrest

/-- Tokens taken in when nothing is open write every element they close. -/
theorem foldlM_addToken_isWritten
    (hfollow : ∀ e ∈ entities, ∀ b b', follow b e.value = some b' → Keeps chars b b')
    {tokens : List Token} (hlaid : Laid chars place tokens)
    (hs : Stands chars [] opened place s.1)
    (h : tokens.foldlM (addToken entities depth nesting follow) s = some s') :
    s'.1.IsWritten chars := by
  induction hlaid generalizing opened s with
  | nil place =>
    cases h
    exact hs.written
  | cons hlies _ ih =>
    rw [List.foldlM_cons, Option.bind_eq_bind, Option.bind_eq_some_iff] at h
    obtain ⟨between, hfirst, hrest⟩ := h
    obtain ⟨hstands, hclosed⟩ := addToken_stands hfollow hs hlies hfirst
    obtain ⟨opened', hopen⟩ := hclosed rfl
    exact ih (hstands opened' hopen) hrest

/-! ### Entities inside entities -/

/-- The builder before the tokens of a text. -/
theorem stands_of_isWritten {b : Builder} (h : b.IsWritten chars) (place : Nat) :
    Stands chars b.places 0 place b := ⟨h, [], rfl, rfl, List.forall_mem_nil _⟩

/-- A balanced entity keeps the builder, however deep its references go. -/
theorem addTokens_keeps (hentities : ∀ e ∈ entities, e.value.Within chars ∧ e.IsBalanced)
    (nesting : Nat) {depth : Nat} {e : Entity} (he : e ∈ entities) {tokens : List Token}
    {b b' : Builder} (htokens : e.value.contentTokens = some tokens)
    (h : addTokens entities depth nesting b tokens = some b') : Keeps chars b b' := by
  intro hwritten
  have hlaid := Cursor.contentTokens_laid (hentities e he).1 htokens
  have hbalanced := (hentities e he).2 tokens htokens
  have hstands := stands_of_isWritten hwritten e.value.offset
  induction nesting generalizing depth e tokens b b' with
  | zero =>
    obtain ⟨s', hs', rfl⟩ := Option.map_eq_some_iff.1 h
    refine foldlM_addToken_keeps (fun _ _ _ _ hfollow => ?_) hlaid hbalanced hstands hs'
    cases hfollow
  | succ nesting ih =>
    obtain ⟨s', hs', rfl⟩ := Option.map_eq_some_iff.1 h
    refine foldlM_addToken_keeps (fun e he b b' hfollow hwritten => ?_) hlaid hbalanced hstands hs'
    obtain ⟨inner, hinner, h⟩ := Option.bind_eq_some_iff.1 hfollow
    exact ih he hinner h hwritten (Cursor.contentTokens_laid (hentities e he).1 hinner)
      ((hentities e he).2 inner hinner) (stands_of_isWritten hwritten _)

end Builder

/-! ### Documents -/

/-- Every element of a document whose entities are balanced is written with a
    character at least. -/
theorem Document.isWritten_root {text : String} (hbalanced : EntitiesBalanced text)
    {document : Document} (h : Document.parse text = some document) :
    document.root.IsWritten text.toList := by
  obtain ⟨entities, tokens, b, root, htokens, hb, -, hroot, rfl⟩ := Document.parse_eq_some_iff.1 h
  obtain ⟨hwithin, place, hlaid⟩ := documentTokens_placed htokens
  have hentities : ∀ e ∈ entities, e.value.Within text.toList ∧ e.IsBalanced :=
    fun e he => ⟨hwithin e he, hbalanced entities tokens htokens e he⟩
  have hempty : Builder.start.IsWritten text.toList :=
    ⟨List.forall_mem_nil _, List.forall_mem_nil _⟩
  have hstart : Builder.Stands text.toList [] 0 place Builder.start :=
    Builder.stands_of_isWritten hempty place
  have hwritten : b.IsWritten text.toList := by
    obtain ⟨s', hs', rfl⟩ := Option.map_eq_some_iff.1 hb
    refine Builder.foldlM_addToken_isWritten (fun e he b b' hfollow => ?_) hlaid hstart hs'
    obtain ⟨inner, hinner, h⟩ := Option.bind_eq_some_iff.1 hfollow
    exact Builder.addTokens_keeps hentities _ he hinner h
  exact hwritten.top root (List.mem_reverse.1 (List.mem_of_find?_eq_some hroot))

end EvalRun.Xml
