import EvalRun.Proofs.Xml.Places
import EvalRun.Proofs.Xml.Surroundings
import EvalRun.Proofs.Xml.Written

/-! # Proofs.Xml.Difference — trees that differ in one element

    Two builders are *apart* if all their nodes are the same but for those inside
    one element, where the second builder has a comment behind the first few
    (`Builder.Apart`). The element is open in both, or closed already, and spots
    lead to it from the element that closed last.

    Whatever token is taken in by both keeps them apart (`addToken_apart`): it is
    added to both or closes the same element in both. With the tokens, the
    entities in their text do so, if they are balanced, and so do all tokens of a
    document (`foldlM_addToken_apart_behind`).

    A place of the document is carried along. Every other element was written
    before it or behind it, as long as the tokens of entities stand before it and
    the tokens taken in behind it.
-/

namespace EvalRun.Xml

/-! ### Elements away from a place -/

/-- No element of the tree is written across the place. -/
inductive Node.IsClear (p : Nat) : Node → Prop where
  | element {name : List Char} {first last : Nat} {children : List Node}
    (hplace : last ≤ p ∨ p ≤ first) (hchildren : ∀ n ∈ children, n.IsClear p) :
    IsClear p (.element name first last children)
  | text (chars : List Char) : IsClear p (.text chars)
  | comment : IsClear p .comment
  | instruction : IsClear p .instruction

namespace Node

/-- What is inside a clear element is clear. -/
theorem IsClear.of_mem_children {p : Nat} {n child : Node} (h : n.IsClear p)
    (hchild : child ∈ n.children) : child.IsClear p := by
  cases h with
  | element _ hchildren => exact hchildren child hchild
  | text | comment | instruction => cases hchild

/-- What a path leads to is clear if the element is that it starts from. -/
theorem IsClear.of_mem_select {p : Nat} {n found : Node} {path : List String} (h : n.IsClear p)
    (hfound : found ∈ n.select path) : found.IsClear p := by
  induction path generalizing n with
  | nil =>
    obtain rfl := List.mem_singleton.1 hfound
    exact h
  | cons name rest ih =>
    rw [select_cons] at hfound
    obtain ⟨child, hchild, hfound⟩ := List.mem_flatMap.1 hfound
    exact ih (h.of_mem_children (List.mem_filter.1 hchild).1) hfound

end Node

/-! ### Nodes that differ in one element -/

/-- Adds character data to nodes, of which the first is the last one read. -/
def joinText (chars : List Char) : List Node → List Node
  | .text before :: rest => .text (before ++ chars) :: rest
  | nodes => .text chars :: nodes

/-- Character data behind a node that is none does not touch it. -/
theorem joinText_append (chars : List Char) (behind : List Node) {n : Node}
    (hn : ∀ cs, n ≠ .text cs) (before : List Node) :
    joinText chars (behind ++ n :: before) = joinText chars behind ++ n :: before := by
  cases behind with
  | nil =>
    cases n with
    | text cs => exact absurd rfl (hn cs)
    | _ => rfl
  | cons first rest => cases first <;> rfl

/-- Character data is never written across a place. -/
theorem isClear_joinText {p : Nat} {chars : List Char} {nodes : List Node} :
    (∀ n ∈ joinText chars nodes, n.IsClear p) ↔ ∀ n ∈ nodes, n.IsClear p := by
  cases nodes with
  | nil => simpa [joinText] using Node.IsClear.text chars
  | cons n rest =>
    cases n with
    | text before => simp [joinText, Node.IsClear.text]
    | _ => simp [joinText, Node.IsClear.text]

/-- Where an element stands among the children of another. -/
structure Spot where
  /-- The local part of its name. -/
  name : List Char
  /-- The nodes before it, in reverse. -/
  before : List Node

/-- Two lists of nodes in reverse that differ in one element. Spots lead to
    it from the outside. In the second list, the element has `base` followed by
    a comment, and then anything; in the first, it has any children. All other
    elements are the same, and none is written across the place. -/
inductive Differs (p : Nat) (base : List Node) : List Spot → List Node → List Node → Prop where
  | here (nodes behind : List Node) : Differs p base [] nodes (behind ++ .comment :: base)
  | inside {spot : Spot} {spots : List Spot} {inner inner' behind : List Node} {first last : Nat}
    (hinner : Differs p base spots inner inner')
    (hclear : ∀ n ∈ behind ++ spot.before, n.IsClear p) :
    Differs p base (spot :: spots)
      (behind ++ .element spot.name first last inner.reverse :: spot.before)
      (behind ++ .element spot.name first last inner'.reverse :: spot.before)

namespace Differs

variable {p : Nat} {base : List Node} {spots : List Spot} {nodes nodes' : List Node}

/-- A node behind the element is the same in both. -/
theorem cons (h : Differs p base spots nodes nodes') {n : Node} (hn : n.IsClear p) :
    Differs p base spots (n :: nodes) (n :: nodes') := by
  cases h with
  | here _ behind => exact .here _ (n :: behind)
  | @inside _ _ _ _ behind _ _ hinner hclear =>
    rw [← List.cons_append, ← List.cons_append]
    exact .inside hinner (List.forall_mem_cons.2 ⟨hn, hclear⟩)

/-- Inside the element itself, character data does not matter. -/
theorem joinText_left (h : Differs p base [] nodes nodes') (chars : List Char) :
    Differs p base [] (joinText chars nodes) nodes' := by
  cases h with
  | here _ behind => exact .here _ behind

/-- Nor does it in the second list. -/
theorem joinText_right (h : Differs p base [] nodes nodes') (chars : List Char) :
    Differs p base [] nodes (joinText chars nodes') := by
  cases h with
  | here _ behind =>
    rw [joinText_append chars behind (n := .comment) (fun _ => nofun) base]
    exact .here nodes _

/-- Anywhere else it joins the same node in both, or none. -/
theorem joinText (h : Differs p base spots nodes nodes') (chars : List Char) :
    Differs p base spots (joinText chars nodes) (joinText chars nodes') := by
  cases h with
  | here nodes behind => exact ((here nodes behind).joinText_left chars).joinText_right chars
  | inside hinner hclear =>
    have hne {name : List Char} {first last : Nat} {children : List Node} (cs : List Char) :
        Node.element name first last children ≠ .text cs := nofun
    rw [joinText_append chars _ hne, joinText_append chars _ hne]
    refine .inside hinner fun n hn => ?_
    rcases List.mem_append.1 hn with hbehind | hbefore
    · exact isClear_joinText.2 (fun n hn => hclear n (List.mem_append_left _ hn)) n hbehind
    · exact hclear n (List.mem_append_right _ hbefore)

end Differs

/-- The text of an element in which a comment stands is that of its children
    before the comment. -/
theorem Node.leadingText_comment (name name' : List Char) (first last first' last' : Nat)
    (base behind : List Node) :
    (element name first last (behind ++ .comment :: base).reverse).leadingText =
      (element name' first' last' base.reverse).leadingText := by
  unfold leadingText children
  rw [List.reverse_append, List.reverse_cons]
  cases base.reverse <;> rfl

/-! ### Builders that differ in one element -/

/-- An open element without its children. -/
def OpenElement.tag (e : OpenElement) : OpenElement := { e with children := [] }

namespace Builder

/-- The tags of the open elements, the innermost first. -/
def tags (b : Builder) : List OpenElement := b.opened.map OpenElement.tag

/-- The children of the open elements, the innermost first, and the nodes
    outside all elements. -/
def levels (b : Builder) : List (List Node) := b.opened.map (·.children) ++ [b.top]

@[simp] theorem tags_mapChildren (b : Builder) (f : List Node → List Node) :
    (b.mapChildren f).tags = b.tags := by
  unfold mapChildren tags
  cases b.opened with
  | nil => rfl
  | cons e outer => rfl

@[simp] theorem levels_mapChildren (b : Builder) (f : List Node → List Node) :
    (b.mapChildren f).levels = b.levels.modifyHead f := by
  unfold mapChildren levels
  cases b.opened with
  | nil => rfl
  | cons e outer => rfl

@[simp] theorem references_mapChildren (b : Builder) (f : List Node → List Node) :
    (b.mapChildren f).references = b.references := by
  unfold mapChildren
  cases b.opened with
  | nil => rfl
  | cons e outer => rfl

@[simp] theorem tags_addNode (b : Builder) (n : Node) : (b.addNode n).tags = b.tags :=
  tags_mapChildren b _

@[simp] theorem levels_addNode (b : Builder) (n : Node) :
    (b.addNode n).levels = b.levels.modifyHead (n :: ·) := levels_mapChildren b _

@[simp] theorem references_addNode (b : Builder) (n : Node) :
    (b.addNode n).references = b.references := references_mapChildren b _

theorem bindings_eq (b : Builder) : b.bindings = b.tags.head?.elim [] (·.bindings) := by
  unfold bindings tags
  cases b.opened with
  | nil => rfl
  | cons e outer => rfl

variable {p : Nat} {base : List Node} {path spots : List Spot} {inner : List Nat}
  {b b' c : Builder}

/-- Two builders whose nodes differ in one element only. That is open, or one of
    the nodes inside an open element is or contains it: the *level* of this open
    element differs, and spots lead on from there. Elements opened inside stand in
    front of it. -/
structure Apart (p : Nat) (base : List Node) (path spots : List Spot) (inner : List Nat)
    (b b' : Builder) : Prop where
  /-- As many references were followed. -/
  references : b'.references = b.references
  /-- The same elements are open. -/
  tags : b'.tags = b.tags
  /-- One level differs, and all nodes of the others are clear. The elements opened
      inside begin at `inner`, and the spots and the elements around make `path`. -/
  levels : ∃ front nodes nodes' back, b.levels = front ++ nodes :: back ∧
    b'.levels = front ++ nodes' :: back ∧ Differs p base spots nodes nodes' ∧
    (∀ level ∈ front ++ back, ∀ n ∈ level, n.IsClear p) ∧
    inner = (b.tags.take front.length).map (·.first) ∧
    path = spots.reverse ++
      List.zipWith Spot.mk ((b.tags.drop front.length).map (·.name.localPart)) back

/-- A change at the current place that keeps lists different in one element. -/
theorem Apart.mapChildren (h : Apart p base path spots inner b b') {f : List Node → List Node}
    (hf : ∀ {nodes nodes'}, Differs p base spots nodes nodes' →
      Differs p base spots (f nodes) (f nodes'))
    (hclear : ∀ nodes : List Node, (∀ n ∈ nodes, n.IsClear p) → ∀ n ∈ f nodes, n.IsClear p) :
    Apart p base path spots inner (b.mapChildren f) (b'.mapChildren f) := by
  obtain ⟨hreferences, htags, front, nodes, nodes', back, hlevels, hlevels', hdiffers, hcl, hinner,
    hpath⟩ := h
  refine ⟨by simpa using hreferences, by simpa using htags, ?_⟩
  simp only [levels_mapChildren, tags_mapChildren, hlevels, hlevels']
  cases front with
  | nil => exact ⟨[], f nodes, f nodes', back, rfl, rfl, hf hdiffers, hcl, hinner, hpath⟩
  | cons level front =>
    refine ⟨f level :: front, nodes, nodes', back, rfl, rfl, hdiffers, ?_, hinner, hpath⟩
    rw [List.cons_append, List.forall_mem_cons] at hcl ⊢
    exact ⟨hclear level hcl.1, hcl.2⟩

theorem Apart.addNode (h : Apart p base path spots inner b b') {n : Node} (hn : n.IsClear p) :
    Apart p base path spots inner (b.addNode n) (b'.addNode n) :=
  h.mapChildren (fun hdiffers => hdiffers.cons hn) fun _ hnodes =>
    List.forall_mem_cons.2 ⟨hn, hnodes⟩

theorem addText_eq (b : Builder) (chars : List Char) :
    b.addText chars = b.mapChildren (joinText chars) := rfl

theorem Apart.addText (h : Apart p base path spots inner b b') (chars : List Char) :
    Apart p base path spots inner (b.addText chars) (b'.addText chars) :=
  h.mapChildren (fun hdiffers => hdiffers.joinText chars) fun _ => isClear_joinText.2

theorem Apart.addBuffer (h : Apart p base path spots inner b b') (buffer : TextBuffer) :
    Apart p base path spots inner (b.addBuffer buffer) (b'.addBuffer buffer) := by
  unfold Builder.addBuffer
  split
  · exact h
  · exact h.addText _

/-- The characters of a buffer join the nodes at the current place, if there are any. -/
theorem addBuffer_levels (b : Builder) (buffer : TextBuffer) :
    (b.addBuffer buffer).references = b.references ∧ (b.addBuffer buffer).tags = b.tags ∧
      ((b.addBuffer buffer).levels = b.levels ∨
        (b.addBuffer buffer).levels = b.levels.modifyHead (joinText buffer.text)) := by
  unfold Builder.addBuffer
  split
  · exact ⟨rfl, rfl, .inl rfl⟩
  · rw [addText_eq]
    exact ⟨references_mapChildren b _, tags_mapChildren b _, .inr (levels_mapChildren b _)⟩

/-- Inside the element itself, what text is added to the one and to the other
    does not matter. -/
theorem Apart.addBuffer_here (h : Apart p base path [] [] b b') (buffer buffer' : TextBuffer) :
    Apart p base path [] [] (b.addBuffer buffer) (b'.addBuffer buffer') := by
  obtain ⟨hreferences, htags, front, nodes, nodes', back, hlevels, hlevels', hdiffers, hclear,
    hinner, hpath⟩ := h
  obtain rfl : front = [] := by
    have hlength := congrArg List.length hlevels
    have hnone := congrArg List.length hinner
    simp [Builder.levels, Builder.tags] at hlength hnone
    apply List.length_eq_zero_iff.1
    omega
  obtain ⟨hrefs, htags₁, hnodes⟩ := addBuffer_levels b buffer
  obtain ⟨hrefs', htags', hnodes'⟩ := addBuffer_levels b' buffer'
  rw [List.nil_append] at hlevels hlevels'
  rw [hlevels] at hnodes
  rw [hlevels'] at hnodes'
  have hleft : ∃ left, (b.addBuffer buffer).levels = left :: back ∧
      Differs p base [] left nodes' := by
    rcases hnodes with hsame | hjoined
    · exact ⟨nodes, hsame, hdiffers⟩
    · exact ⟨_, hjoined, hdiffers.joinText_left _⟩
  obtain ⟨left, hleft, hdiffers⟩ := hleft
  have hright : ∃ right, (b'.addBuffer buffer').levels = right :: back ∧
      Differs p base [] left right := by
    rcases hnodes' with hsame | hjoined
    · exact ⟨nodes', hsame, hdiffers⟩
    · exact ⟨_, hjoined, hdiffers.joinText_right _⟩
  obtain ⟨right, hright, hdiffers⟩ := hright
  refine ⟨by rw [hrefs, hrefs', hreferences], by rw [htags₁, htags', htags], ?_⟩
  refine ⟨[], left, right, back, hleft, hright, hdiffers, hclear, hinner, ?_⟩
  rw [htags₁]
  exact hpath

/-! ### Tags -/

/-- An end tag is taken in if it repeats the name of the innermost element. -/
theorem addEndTag_eq_some_iff {name : Name} {last : Nat} :
    b.addEndTag name last = some c ↔ ∃ e outer, b.opened = e :: outer ∧ e.name = name ∧
      c = ({ b with opened := outer } : Builder).addNode
        (.element name.localPart e.first last e.children.reverse) := by
  unfold addEndTag
  cases hopened : b.opened with
  | nil => simp
  | cons e outer =>
    simp only
    split
    · rename_i hname
      subst hname
      constructor
      · intro h
        exact ⟨e, outer, rfl, rfl, (Option.some.inj h).symm⟩
      · rintro ⟨e', outer', heq, -, rfl⟩
        obtain ⟨rfl, rfl⟩ := List.cons.inj heq
        rfl
    · rename_i hname
      constructor
      · nofun
      · rintro ⟨e', outer', heq, hname', -⟩
        obtain ⟨rfl, rfl⟩ := List.cons.inj heq
        exact absurd hname' hname

theorem levels_eq_of_opened {e : OpenElement} {outer : List OpenElement}
    (h : b.opened = e :: outer) :
    b.levels = e.children :: ({ b with opened := outer } : Builder).levels := by
  simp [Builder.levels, h]

theorem tags_eq_of_opened {e : OpenElement} {outer : List OpenElement} (h : b.opened = e :: outer) :
    b.tags = e.tag :: ({ b with opened := outer } : Builder).tags := by
  simp [Builder.tags, h]

/-- An end tag closes the innermost element in both. If that was opened inside,
    it must be clear; otherwise it is the element that differs, or has it inside. -/
theorem Apart.addEndTag (h : Apart p base path spots inner b b') {name : Name} {last : Nat}
    (hclear : ∀ first ∈ inner.head?, last ≤ p ∨ p ≤ first) (hb : b.addEndTag name last = some c) :
    ∃ c' spots', b'.addEndTag name last = some c' ∧
      Apart p base path spots' inner.tail c c' ∧ (inner ≠ [] → spots' = spots) := by
  obtain ⟨e, outer, hopened, rfl, rfl⟩ := addEndTag_eq_some_iff.1 hb
  obtain ⟨hreferences, htags, front, nodes, nodes', back, hlevels, hlevels', hdiffers, hcl, hinner,
    hpath⟩ := h
  obtain ⟨e', outer', hopened', hsame, houter⟩ : ∃ e' outer', b'.opened = e' :: outer' ∧
      e'.tag = e.tag ∧ outer'.map OpenElement.tag = outer.map OpenElement.tag := by
    unfold Builder.tags at htags
    rw [hopened, List.map_cons] at htags
    obtain ⟨e', outer', hopened', hsame, houter⟩ := List.map_eq_cons_iff.1 htags
    exact ⟨e', outer', hopened', hsame, houter⟩
  have hname : e'.name = e.name := congrArg (·.name) hsame
  have hfirst : e'.first = e.first := congrArg (·.first) hsame
  rw [levels_eq_of_opened hopened] at hlevels
  rw [levels_eq_of_opened hopened'] at hlevels'
  rw [tags_eq_of_opened hopened] at hinner hpath
  have hend : b'.addEndTag e.name last =
      some (({ b' with opened := outer' } : Builder).addNode
        (.element e.name.localPart e.first last e'.children.reverse)) := by
    refine addEndTag_eq_some_iff.2 ⟨e', outer', hopened', hname, ?_⟩
    rw [hfirst]
  cases front with
  | nil =>
    -- the element that differs is closed, or one around it
    obtain ⟨rfl, hback⟩ := List.cons.inj hlevels
    obtain ⟨rfl, hback'⟩ := List.cons.inj hlevels'
    obtain rfl : inner = [] := hinner
    obtain ⟨level, back, rfl⟩ : ∃ level rest, back = level :: rest := by
      apply List.exists_cons_of_ne_nil
      rw [← hback]
      simp [Builder.levels]
    have hclosed : Differs p base (⟨e.name.localPart, level⟩ :: spots)
        ([] ++ .element e.name.localPart e.first last e.children.reverse :: level)
        ([] ++ .element e.name.localPart e.first last e'.children.reverse :: level) :=
      .inside hdiffers (hcl level List.mem_cons_self)
    refine ⟨_, ⟨e.name.localPart, level⟩ :: spots, hend, ⟨?_, ?_, ?_⟩, fun hne => absurd rfl hne⟩
    · rw [references_addNode, references_addNode]
      exact hreferences
    · rw [tags_addNode, tags_addNode]
      exact houter
    · refine ⟨[], _, _, back, ?_, ?_, hclosed, fun l hl => hcl l
        (List.mem_cons_of_mem _ hl), rfl, ?_⟩
      · rw [levels_addNode, hback]
        rfl
      · rw [levels_addNode, hback']
        rfl
      · rw [tags_addNode, hpath, List.reverse_cons, List.append_assoc]
        rfl
  | cons level front =>
    obtain ⟨rfl, hfront⟩ := List.cons.inj hlevels
    obtain ⟨hchildren, hfront'⟩ := List.cons.inj hlevels'
    rw [List.cons_append, List.forall_mem_cons] at hcl
    subst hinner
    have hrest : Apart p base path spots
        ((({ b with opened := outer } : Builder).tags.take front.length).map (·.first))
        { b with opened := outer } { b' with opened := outer' } :=
      ⟨hreferences, houter, front, nodes, nodes', back, hfront, hfront', hdiffers, hcl.2, rfl,
        hpath⟩
    have hnode : (Node.element e.name.localPart e.first last e.children.reverse).IsClear p :=
      .element (hclear e.first rfl) fun n hn => hcl.1 n (List.mem_reverse.1 hn)
    rw [hchildren] at hend
    exact ⟨_, spots, hend, hrest.addNode hnode, fun _ => rfl⟩

/-- A start tag adds an empty element to both or opens one in both. -/
theorem Apart.addStartTag (h : Apart p base path spots inner b b') {entities : List Entity}
    {depth nesting : Nat} {name : Name} {attributes : List RawAttribute} {isEmpty : Bool}
    {first last : Nat} (hclear : last ≤ p ∨ p ≤ first)
    (hb : b.addStartTag entities depth nesting name attributes isEmpty first last = some c) :
    ∃ c', b'.addStartTag entities depth nesting name attributes isEmpty first last = some c' ∧
      Apart p base path spots (if isEmpty then inner else first :: inner) c c' := by
  have hbindings : b'.bindings = b.bindings := by rw [bindings_eq, bindings_eq, h.tags]
  rw [addStartTag_eq] at hb ⊢
  obtain ⟨⟨bindings, references⟩, hadmit, rfl⟩ := Option.map_eq_some_iff.1 hb
  rw [hbindings, h.references, hadmit, Option.map_some]
  refine ⟨_, rfl, ?_⟩
  have hcounted : Apart p base path spots inner { b with references } { b' with references } :=
    ⟨rfl, h.tags, h.levels⟩
  cases isEmpty with
  | true => exact hcounted.addNode (.element hclear nofun)
  | false =>
    obtain ⟨-, htags, front, nodes, nodes', back, hlevels, hlevels', hdiffers, hcl, hinner,
      hpath⟩ := h
    refine ⟨rfl, congrArg (_ :: ·) htags, [] :: front, nodes, nodes', back,
      congrArg ([] :: ·) hlevels, congrArg ([] :: ·) hlevels', hdiffers, ?_, ?_, hpath⟩
    · rw [List.cons_append, List.forall_mem_cons]
      exact ⟨nofun, hcl⟩
    · exact congrArg (first :: ·) hinner

/-! ### Character data -/

variable {entities : List Entity} {depth nesting : Nat} {follow : Builder → Cursor → Option Builder}

/-- Taking in an entity keeps two builders apart in the same element. -/
def FollowApart (p : Nat) (base : List Node) (path : List Spot) (entities : List Entity)
    (follow : Builder → Cursor → Option Builder) : Prop :=
  ∀ e ∈ entities, ∀ spots inner b b' c, Apart p base path spots inner b b' →
    follow b e.value = some c →
    ∃ c', follow b' e.value = some c' ∧ Apart p base path spots inner c c'

/-- Character data keeps two builders apart. Inside the element itself, the two may
    have read different characters before. -/
theorem addChars_apart (hfollow : FollowApart p base path entities follow) {fuel fuel' : Nat}
    {buffer buffer' : TextBuffer} {cs : List Char} (h : Apart p base path spots inner b b')
    (hbuffer : (spots = [] ∧ inner = []) ∨ buffer = buffer') (hfuel : cs.length < fuel')
    (hb : addChars entities depth follow fuel b buffer cs = some c) :
    ∃ c', addChars entities depth follow fuel' b' buffer' cs = some c' ∧
      Apart p base path spots inner c c' := by
  induction fuel generalizing fuel' spots inner b b' buffer buffer' cs with
  | zero => cases hb
  | succ fuel ih =>
    obtain ⟨fuel', rfl⟩ := Nat.exists_eq_succ_of_ne_zero (n := fuel') (by omega)
    unfold addChars at hb ⊢
    have hbuffered : Apart p base path spots inner (b.addBuffer buffer) (b'.addBuffer buffer') := by
      rcases hbuffer with ⟨rfl, rfl⟩ | rfl
      · exact h.addBuffer_here buffer buffer'
      · exact h.addBuffer buffer
    cases cs with
    | nil =>
      obtain rfl := Option.some.inj hb
      exact ⟨_, rfl, hbuffered⟩
    | cons ch rest =>
      rw [List.length_cons] at hfuel
      simp only at hb ⊢
      split at hb
      · rename_i hplain
        rw [if_pos hplain]
        exact ih h (hbuffer.imp_right (congrArg fun buffer : TextBuffer =>
          buffer.push ch rest.isEmpty)) (Nat.lt_of_succ_lt_succ hfuel) hb
      · rename_i hreference
        rw [if_neg hreference]
        simp only [Option.bind_eq_bind, Option.bind_eq_some_iff] at hb ⊢
        obtain ⟨⟨reference, behind⟩, hscan, hb⟩ := hb
        have hshorter : behind.rest.length < fuel' := by
          obtain ⟨k, rfl⟩ := (Scan.closing_reference (s := ⟨0, [], ';', 0⟩) rfl).moves _ _ _ hscan
          simp only [Cursor.skip_rest, List.length_drop]
          omega
        cases reference with
        | char found =>
          obtain ⟨c', hc', hapart⟩ := ih h (hbuffer.imp_right (congrArg fun buffer : TextBuffer =>
            buffer.pushReferenced found (depth ≠ 0) behind.rest.isEmpty)) hshorter hb
          exact ⟨c', ⟨_, hscan, hc'⟩, hapart⟩
        | entity name =>
          simp only [Option.bind_eq_some_iff] at hb
          obtain ⟨value, hvalue, references, hcount, between, hbetween, hb⟩ := hb
          obtain ⟨e, hfind, rfl⟩ := Option.map_eq_some_iff.1 hvalue
          have hcounted : Apart p base path spots inner { b.addBuffer buffer with references }
              { b'.addBuffer buffer' with references } := ⟨rfl, hbuffered.tags, hbuffered.levels⟩
          obtain ⟨between', hbetween', hinside⟩ :=
            hfollow e (List.mem_of_find?_eq_some hfind) _ _ _ _ _ hcounted hbetween
          have hbehind : Apart p base path spots inner
              { between with references := countBehind depth between.references }
              { between' with references := countBehind depth between'.references } := by
            refine ⟨?_, hinside.tags, hinside.levels⟩
            simp only [hinside.references]
          obtain ⟨c', hc', hapart⟩ := ih hbehind (.inr rfl) hshorter hb
          refine ⟨c', ⟨_, hscan, ?_⟩, hapart⟩
          simp only [Option.bind_eq_some_iff]
          exact ⟨_, hvalue, references, h.references ▸ hcount, between', hbetween', hc'⟩

/-! ### Tokens -/

end Builder

/-- The tag of the token does not make an element that is written across the
    place, where the elements opened inside begin at the given places. -/
def Token.IsClear (p : Nat) (inner : List Nat) : Token → Prop
  | .startTag _ _ _ first last => last ≤ p ∨ p ≤ first
  | .endTag _ last => ∀ first ∈ inner.head?, last ≤ p ∨ p ≤ first
  | _ => True

/-- The tags of the token stand behind the place. -/
def Token.StandsBehind (p : Nat) : Token → Prop
  | .startTag _ _ _ first last => p ≤ first ∧ p < last
  | .endTag _ last => p < last
  | _ => True

/-- A tag that ends by the place closes no element across it. -/
theorem Token.EndsBy.isClear {p : Nat} {t : Token} (h : t.EndsBy p) (inner : List Nat) :
    t.IsClear p inner := by
  cases t with
  | startTag name attributes isEmpty first last => exact .inl h.2
  | endTag name last => exact fun _ _ => .inl h
  | _ => trivial

/-- Where the elements opened inside begin, behind a token. -/
def Token.placesBehind (inner : List Nat) : Token → List Nat
  | .startTag _ _ false first _ => first :: inner
  | .endTag _ _ => inner.tail
  | _ => inner

/-- The token closes an element. -/
def Token.IsEndTag : Token → Prop
  | .endTag _ _ => True
  | _ => False

namespace Builder

variable {p : Nat} {base : List Node} {path spots : List Spot} {inner : List Nat}
  {entities : List Entity} {depth nesting : Nat} {follow : Builder → Cursor → Option Builder}

/-- One token keeps two builders apart. The spots grow if it closes an element that
    was not opened inside. -/
theorem addToken_apart (hfollow : FollowApart p base path entities follow) {b b' : Builder}
    {seen : Bool} {t : Token} {u : Builder × Bool} (h : Apart p base path spots inner b b')
    (ht : t.IsClear p inner) (hu : addToken entities depth nesting follow (b, seen) t = some u) :
    ∃ c' spots', addToken entities depth nesting follow (b', seen) t = some (c', u.2) ∧
      Apart p base path spots' (t.placesBehind inner) u.1 c' ∧
      (inner ≠ [] ∨ ¬ t.IsEndTag → spots' = spots) := by
  cases t with
  | startTag name attributes isEmpty first last =>
    obtain ⟨c, hc, hu⟩ := Option.bind_eq_some_iff.1 hu
    obtain rfl := Option.some.inj hu
    obtain ⟨c', hc', hapart⟩ := h.addStartTag ht hc
    refine ⟨c', spots, Option.bind_eq_some_iff.2 ⟨c', hc', rfl⟩, ?_, fun _ => rfl⟩
    cases isEmpty <;> exact hapart
  | endTag name last =>
    cases seen with
    | false => cases hu
    | true =>
      obtain ⟨c, hc, hu⟩ := Option.bind_eq_some_iff.1 hu
      obtain rfl := Option.some.inj hu
      obtain ⟨c', spots', hc', hapart, hspots⟩ := h.addEndTag ht hc
      exact ⟨c', spots', Option.bind_eq_some_iff.2 ⟨c', hc', rfl⟩, hapart,
        fun hne => hspots (hne.resolve_right fun hno => hno trivial)⟩
  | text cs =>
    obtain ⟨c, hc, hu⟩ := Option.bind_eq_some_iff.1 hu
    obtain rfl := Option.some.inj hu
    obtain ⟨c', hc', hapart⟩ := addChars_apart hfollow h (.inr rfl) (Nat.lt_succ_self _) hc
    exact ⟨c', spots, Option.bind_eq_some_iff.2 ⟨c', hc', rfl⟩, hapart, fun _ => rfl⟩
  | cdata cs =>
    cases hu
    exact ⟨_, spots, rfl, h.addText _, fun _ => rfl⟩
  | comment =>
    cases hu
    exact ⟨_, spots, rfl, h.addNode .comment, fun _ => rfl⟩
  | instruction =>
    cases hu
    exact ⟨_, spots, rfl, h.addNode .instruction, fun _ => rfl⟩
  | cutTag =>
    cases hu
    exact ⟨_, spots, rfl, h, fun _ => rfl⟩

/-! ### All tokens of a text -/

/-- The tokens of a balanced text in front of the place keep two builders apart
    in the same element. The text has opened the elements at `own`. -/
theorem foldlM_addToken_apart (hfollow : FollowApart p base path entities follow)
    {own : List Nat} {tokens : List Token} {b b' : Builder} {seen : Bool} {u : Builder × Bool}
    (hplaces : ∀ t ∈ tokens, t.EndsBy p)
    (hbalanced : tokens.foldlM Token.openBehind own.length = some 0)
    (h : Apart p base path spots (own ++ inner) b b')
    (hu : tokens.foldlM (addToken entities depth nesting follow) (b, seen) = some u) :
    ∃ c', tokens.foldlM (addToken entities depth nesting follow) (b', seen) = some (c', u.2) ∧
      Apart p base path spots inner u.1 c' := by
  induction tokens generalizing own b b' seen with
  | nil =>
    cases hu
    obtain rfl := List.length_eq_zero_iff.1 (Option.some.inj hbalanced)
    exact ⟨b', rfl, h⟩
  | cons t rest ih =>
    rw [List.forall_mem_cons] at hplaces
    rw [List.foldlM_cons, Option.bind_eq_bind, Option.bind_eq_some_iff] at hbalanced hu
    obtain ⟨opened, hopen, hbalanced⟩ := hbalanced
    obtain ⟨⟨between, seen'⟩, hfirst, hu⟩ := hu
    have hclear : t.IsClear p (own ++ inner) := hplaces.1.isClear _
    obtain ⟨between', spots', hfirst', hapart, hspots⟩ := addToken_apart hfollow h hclear hfirst
    -- an end tag closes an element that the text has opened
    obtain ⟨own', hown', rfl, hinside⟩ : ∃ own', t.placesBehind (own ++ inner) = own' ++ inner ∧
        own'.length = opened ∧ (own ++ inner ≠ [] ∨ ¬ t.IsEndTag) := by
      cases t with
      | startTag name attributes isEmpty first last =>
        cases isEmpty with
        | true => exact ⟨own, rfl, Option.some.inj hopen, .inr id⟩
        | false => exact ⟨first :: own, rfl, Option.some.inj hopen, .inr id⟩
      | endTag name last =>
        cases own with
        | nil => cases hopen
        | cons first own => exact ⟨own, rfl, Option.some.inj hopen, .inl nofun⟩
      | _ => exact ⟨own, rfl, Option.some.inj hopen, .inr id⟩
    rw [hown', hspots hinside] at hapart
    obtain ⟨c', hc', hend⟩ := ih hplaces.2 hbalanced hapart hu
    refine ⟨c', ?_, hend⟩
    rw [List.foldlM_cons, Option.bind_eq_bind, Option.bind_eq_some_iff]
    exact ⟨_, hfirst', hc'⟩

/-- The tokens behind the place keep two builders apart in an element, which
    they may close. -/
theorem foldlM_addToken_apart_behind (hfollow : FollowApart p base path entities follow)
    {tokens : List Token} {b b' : Builder} {seen : Bool} {u : Builder × Bool}
    (hplaces : ∀ t ∈ tokens, t.StandsBehind p) (hinner : ∀ first ∈ inner, p ≤ first)
    (h : Apart p base path spots inner b b')
    (hu : tokens.foldlM (addToken entities depth nesting follow) (b, seen) = some u) :
    ∃ c' spots' inner', tokens.foldlM (addToken entities depth nesting follow) (b', seen) =
      some (c', u.2) ∧ Apart p base path spots' inner' u.1 c' := by
  induction tokens generalizing spots inner b b' seen with
  | nil =>
    cases hu
    exact ⟨b', spots, inner, rfl, h⟩
  | cons t rest ih =>
    rw [List.forall_mem_cons] at hplaces
    rw [List.foldlM_cons, Option.bind_eq_bind, Option.bind_eq_some_iff] at hu
    obtain ⟨⟨between, seen'⟩, hfirst, hu⟩ := hu
    have hclear : t.IsClear p inner := by
      cases t with
      | startTag name attributes isEmpty first last => exact .inr hplaces.1.1
      | endTag name last =>
        exact fun first hhead => .inr (hinner first (List.mem_of_mem_head? hhead))
      | _ => trivial
    obtain ⟨between', spots', hfirst', hapart, -⟩ := addToken_apart hfollow h hclear hfirst
    have hbehind : ∀ first ∈ t.placesBehind inner, p ≤ first := by
      cases t with
      | startTag name attributes isEmpty first last =>
        cases isEmpty with
        | true => exact hinner
        | false => exact List.forall_mem_cons.2 ⟨hplaces.1.1, hinner⟩
      | endTag name last => exact fun first hmem => hinner first (List.mem_of_mem_tail hmem)
      | _ => exact hinner
    obtain ⟨c', spots', inner', hc', hend⟩ := ih hplaces.2 hbehind hapart hu
    refine ⟨c', spots', inner', ?_, hend⟩
    rw [List.foldlM_cons, Option.bind_eq_bind, Option.bind_eq_some_iff]
    exact ⟨_, hfirst', hc'⟩

/-- Balanced entities that are declared in front of the place keep two builders
    apart in the same element, however deep their references go. -/
theorem followApart_followEntity (hbalanced : ∀ e ∈ entities, e.IsBalanced)
    (hplaces : ∀ e ∈ entities, ∀ tokens, e.value.contentTokens = some tokens →
      ∀ t ∈ tokens, t.EndsBy p) (nesting depth : Nat) :
    FollowApart p base path entities (followEntity entities depth nesting) := by
  induction nesting generalizing depth with
  | zero =>
    intro e _ spots inner b b' c _ h
    cases h
  | succ nesting ih =>
    intro e he spots inner b b' c hapart h
    obtain ⟨tokens, htokens, h⟩ := Option.bind_eq_some_iff.1 h
    rw [addTokens_eq] at h
    obtain ⟨u, hu, rfl⟩ := Option.map_eq_some_iff.1 h
    have hopened : tokens.foldlM Token.openBehind ([] : List Nat).length = some 0 :=
      hbalanced e he tokens htokens
    have hinside : Apart p base path spots ([] ++ inner) b b' := hapart
    obtain ⟨c', hc', hend⟩ := foldlM_addToken_apart (ih (depth + 1))
      (hplaces e he tokens htokens) hopened hinside hu
    refine ⟨c', Option.bind_eq_some_iff.2 ⟨tokens, htokens, ?_⟩, hend⟩
    rw [addTokens_eq, hc']
    rfl

end Builder
end EvalRun.Xml
