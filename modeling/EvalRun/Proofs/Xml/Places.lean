import EvalRun.Proofs.Xml.Selection
import EvalRun.Xml.Document

/-! # Proofs.Xml.Places — where a tree was written

    A tree keeps the places of its tags and never looks at them. So if the
    places of all tags are changed in some way, what the builder makes of them
    changes in the same way and in no other (`foldlM_addToken_mapPlaces`), as
    long as the tags in entities stay where they are.
-/

namespace EvalRun.Xml

/-! ### Trees -/

namespace Node

mutual

/-- A tree whose elements begin and end at other places. -/
def mapPlaces (f g : Nat → Nat) : Node → Node
  | element name first last children => element name (f first) (g last) (mapPlacesAll f g children)
  | text chars => text chars
  | comment => comment
  | instruction => instruction

/-- Several trees at other places. -/
def mapPlacesAll (f g : Nat → Nat) : List Node → List Node
  | [] => []
  | n :: rest => mapPlaces f g n :: mapPlacesAll f g rest

end

variable {f g : Nat → Nat}

theorem mapPlacesAll_eq_map (trees : List Node) :
    mapPlacesAll f g trees = trees.map (mapPlaces f g) := by
  induction trees with
  | nil => rfl
  | cons n rest ih => rw [mapPlacesAll, ih, List.map_cons]

theorem mapPlaces_element (name : List Char) (first last : Nat) (children : List Node) :
    (element name first last children).mapPlaces f g =
      element name (f first) (g last) (children.map (mapPlaces f g)) := by
  rw [mapPlaces, mapPlacesAll_eq_map]

@[simp] theorem isElement_mapPlaces (n : Node) : (n.mapPlaces f g).isElement = n.isElement := by
  cases n with
  | element => rw [mapPlaces_element]; rfl
  | text | comment | instruction => rfl

@[simp] theorem localName_mapPlaces (n : Node) : (n.mapPlaces f g).localName = n.localName := by
  cases n with
  | element => rw [mapPlaces_element]; rfl
  | text | comment | instruction => rfl

@[simp] theorem isNamed_mapPlaces (name : String) (n : Node) :
    isNamed name (n.mapPlaces f g) = isNamed name n := by
  cases n with
  | element => rw [mapPlaces_element]; rfl
  | text | comment | instruction => rfl

@[simp] theorem children_mapPlaces (n : Node) :
    (n.mapPlaces f g).children = n.children.map (mapPlaces f g) := by
  cases n with
  | element => rw [mapPlaces_element]; rfl
  | text | comment | instruction => rfl

@[simp] theorem leadingText_mapPlaces (n : Node) :
    (n.mapPlaces f g).leadingText = n.leadingText := by
  unfold leadingText
  rw [children_mapPlaces, List.head?_map]
  cases n.children.head? with
  | none => rfl
  | some child =>
    cases child with
    | element => rw [Option.map_some, mapPlaces_element]
    | text | comment | instruction => rfl

theorem elements_mapPlaces (n : Node) :
    (n.mapPlaces f g).elements = n.elements.map (mapPlaces f g) := by
  simp [elements, List.filter_map, Function.comp_def]

theorem childrenNamed_mapPlaces (name : String) (n : Node) :
    (n.mapPlaces f g).childrenNamed name = (n.childrenNamed name).map (mapPlaces f g) := by
  simp [childrenNamed, List.filter_map, Function.comp_def]

/-- The elements at the end of a path are found all the same. -/
theorem select_mapPlaces (n : Node) (path : List String) :
    (n.mapPlaces f g).select path = (n.select path).map (mapPlaces f g) := by
  induction path generalizing n with
  | nil => rfl
  | cons name rest ih =>
    rw [select_cons, select_cons, childrenNamed_mapPlaces, List.flatMap_map, List.map_flatMap]
    simp only [ih]

end Node

/-! ### Tokens -/

/-- A token whose tags stand at other places. -/
def Token.mapPlaces (f g : Nat → Nat) : Token → Token
  | startTag name attributes isEmpty first last =>
    startTag name attributes isEmpty (f first) (g last)
  | endTag name last => endTag name (g last)
  | text chars => text chars
  | cdata chars => cdata chars
  | comment => comment
  | instruction => instruction
  | cutTag => cutTag

/-- The tags of the token end by a place, and a start tag has a character. -/
def Token.EndsBy (p : Nat) : Token → Prop
  | startTag _ _ _ first last => first < last ∧ last ≤ p
  | endTag _ last => last ≤ p
  | _ => True

theorem Token.EndsBy.mapPlaces_eq {p : Nat} {f g : Nat → Nat} {t : Token} (h : t.EndsBy p)
    (hf : ∀ q < p, f q = q) (hg : ∀ q ≤ p, g q = q) : t.mapPlaces f g = t := by
  cases t with
  | startTag name attributes isEmpty first last =>
    obtain ⟨horder, hlast⟩ := h
    rw [mapPlaces, hf first (by omega), hg last hlast]
  | endTag name last => rw [mapPlaces, hg last h]
  | _ => rfl

/-- Tokens that end by a place stay where no place before it is changed. -/
theorem map_mapPlaces_eq {p : Nat} {f g : Nat → Nat} {tokens : List Token}
    (h : ∀ t ∈ tokens, t.EndsBy p) (hf : ∀ q < p, f q = q) (hg : ∀ q ≤ p, g q = q) :
    tokens.map (Token.mapPlaces f g) = tokens := by
  have hall : ∀ t ∈ tokens, t.mapPlaces f g = id t := fun t ht => (h t ht).mapPlaces_eq hf hg
  rw [List.map_congr_left hall, List.map_id]

/-- The tokens of every entity stand where the change of places leaves them. -/
def EntitiesKeepPlaces (f g : Nat → Nat) (entities : List Entity) : Prop :=
  ∀ e ∈ entities, ∀ tokens, e.value.contentTokens = some tokens →
    tokens.map (Token.mapPlaces f g) = tokens

/-! ### The builder -/

/-- What is changed in the end may be changed behind the first step. -/
theorem map_bind_apply {α β γ : Type} (o : Option α) (m : α → Option β) (change : β → γ) :
    (o.bind m).map change = o.bind fun a => (m a).map change := by
  cases o <;> rfl

/-- What is changed before a step may be changed in it. -/
theorem bind_map_apply {α β γ : Type} (o : Option α) (change : α → β) (m : β → Option γ) :
    (o.map change).bind m = o.bind fun a => m (change a) := by
  cases o <;> rfl

namespace Builder

variable {f g : Nat → Nat}

/-- A builder whose nodes and open elements are at other places. -/
def mapPlaces (f g : Nat → Nat) (b : Builder) : Builder where
  opened := b.opened.map fun e =>
    ⟨e.name, f e.first, e.bindings, e.children.map (Node.mapPlaces f g)⟩
  top := b.top.map (Node.mapPlaces f g)
  references := b.references

theorem bindings_mapPlaces (b : Builder) : (b.mapPlaces f g).bindings = b.bindings := by
  unfold bindings mapPlaces
  cases b.opened with
  | nil => rfl
  | cons e outer => rfl

theorem mapChildren_mapPlaces {change : List Node → List Node}
    (h : ∀ nodes, (change nodes).map (Node.mapPlaces f g) =
      change (nodes.map (Node.mapPlaces f g))) (b : Builder) :
    (b.mapChildren change).mapPlaces f g = (b.mapPlaces f g).mapChildren change := by
  unfold mapChildren mapPlaces
  cases b.opened with
  | nil => simp [h]
  | cons e outer => simp [h]

theorem addText_mapPlaces (b : Builder) (chars : List Char) :
    (b.addText chars).mapPlaces f g = (b.mapPlaces f g).addText chars := by
  refine mapChildren_mapPlaces (fun nodes => ?_) b
  cases nodes with
  | nil => rfl
  | cons n rest =>
    cases n with
    | element => simp [Node.mapPlaces]
    | text | comment | instruction => rfl

theorem addBuffer_mapPlaces (b : Builder) (buffer : TextBuffer) :
    (b.addBuffer buffer).mapPlaces f g = (b.mapPlaces f g).addBuffer buffer := by
  unfold addBuffer
  split
  · rfl
  · exact addText_mapPlaces b _

theorem addNode_mapPlaces (b : Builder) (n : Node) :
    (b.addNode n).mapPlaces f g = (b.mapPlaces f g).addNode (n.mapPlaces f g) := by
  unfold addNode mapChildren mapPlaces
  cases b.opened with
  | nil => rfl
  | cons e outer => rfl

/-- What the attributes of a start tag come to, if the rules on them are kept:
    the namespaces in force inside, and the count of references. -/
def admitTag (entities : List Entity) (depth nesting : Nat) (name : Name)
    (attributes : List RawAttribute) (outer : List Binding) (references : Nat) :
    Option (List Binding × Nat) := do
  if name.qualifier = "xmlns".toList then none
  else
    let (values, references) ← attributes.foldlM (fun (done, references) a => do
        let (value, references) ← normalizeAttribute entities depth nesting ⟨a.value, 0⟩ references
        some (done ++ [(⟨a.name, value⟩ : Attribute)], references)) ([], references)
    let t ← TagAttributes.ofList values
    let bindings := innerBindings t.bindings outer
    if attributesValid bindings t.others && elementValid bindings name then
      some (bindings, references)
    else none

/-- A start tag that is admitted adds an empty element or opens one. -/
theorem addStartTag_eq (b : Builder) (entities : List Entity) (depth nesting : Nat) (name : Name)
    (attributes : List RawAttribute) (isEmpty : Bool) (first last : Nat) :
    b.addStartTag entities depth nesting name attributes isEmpty first last =
      (admitTag entities depth nesting name attributes b.bindings b.references).map
        fun (bindings, references) =>
          if isEmpty then { b with references }.addNode (.element name.localPart first last [])
          else { b with references, opened := ⟨name, first, bindings, []⟩ :: b.opened } := by
  unfold addStartTag admitTag
  split
  · rfl
  · simp only [Option.bind_eq_bind, map_bind_apply]
    refine Option.bind_congr fun found _ => Option.bind_congr fun t _ => ?_
    have hbindings : ({ b with references := found.2 } : Builder).bindings = b.bindings := rfl
    rw [hbindings]
    cases attributesValid (innerBindings t.bindings b.bindings) t.others &&
      elementValid (innerBindings t.bindings b.bindings) name with
    | false => rfl
    | true => cases isEmpty <;> rfl

theorem addStartTag_mapPlaces (b : Builder) (entities : List Entity) (depth nesting : Nat)
    (name : Name) (attributes : List RawAttribute) (isEmpty : Bool) (first last : Nat) :
    (b.mapPlaces f g).addStartTag entities depth nesting name attributes isEmpty (f first)
        (g last) =
      (b.addStartTag entities depth nesting name attributes isEmpty first last).map
        (mapPlaces f g) := by
  rw [addStartTag_eq, addStartTag_eq, bindings_mapPlaces, Option.map_map]
  refine congrArg (Option.map · _) (funext fun found => ?_)
  cases isEmpty with
  | true =>
    have hempty : (Node.element name.localPart first last []).mapPlaces f g =
        .element name.localPart (f first) (g last) [] := Node.mapPlaces_element _ _ _ []
    have hnode := addNode_mapPlaces (f := f) (g := g) { b with references := found.2 }
      (.element name.localPart first last [])
    rw [hempty] at hnode
    exact hnode.symm
  | false => rfl

theorem addEndTag_mapPlaces (b : Builder) (name : Name) (last : Nat) :
    (b.mapPlaces f g).addEndTag name (g last) = (b.addEndTag name last).map (mapPlaces f g) := by
  cases b with
  | mk opened top references =>
    cases opened with
    | nil => rfl
    | cons e outer =>
      change (if e.name = name then _ else none) =
        (if e.name = name then _ else none : Option Builder).map _
      by_cases hname : e.name = name
      · rw [if_pos hname, if_pos hname, Option.map_some, addNode_mapPlaces, Node.mapPlaces_element,
          List.map_reverse]
        rfl
      · rw [if_neg hname, if_neg hname]
        rfl

/-! ### Entities and tokens -/

variable {entities : List Entity} {depth nesting : Nat} {follow : Builder → Cursor → Option Builder}

/-- Taking in the text of an entity changes places as they are changed before. -/
def FollowKeepsPlaces (f g : Nat → Nat) (entities : List Entity)
    (follow : Builder → Cursor → Option Builder) : Prop :=
  ∀ e ∈ entities, ∀ b, follow (mapPlaces f g b) e.value = (follow b e.value).map (mapPlaces f g)

theorem addChars_mapPlaces (hfollow : FollowKeepsPlaces f g entities follow) (fuel : Nat)
    (b : Builder) (buffer : TextBuffer) (cs : List Char) :
    addChars entities depth follow fuel (b.mapPlaces f g) buffer cs =
      (addChars entities depth follow fuel b buffer cs).map (mapPlaces f g) := by
  induction fuel generalizing b buffer cs with
  | zero => rfl
  | succ fuel ih =>
    unfold addChars
    cases cs with
    | nil => exact congrArg some (addBuffer_mapPlaces b buffer).symm
    | cons c rest =>
      simp only
      split
      · exact ih b _ rest
      · simp only [Option.bind_eq_bind, map_bind_apply]
        refine Option.bind_congr fun found _ => ?_
        obtain ⟨reference, behind⟩ := found
        cases reference with
        | char c => exact ih b _ behind.rest
        | entity name =>
          simp only [map_bind_apply]
          refine Option.bind_congr fun value hvalue => ?_
          refine Option.bind_congr fun references _ => ?_
          obtain ⟨e, he, rfl⟩ := Option.map_eq_some_iff.1 hvalue
          have hmem := List.mem_of_find?_eq_some he
          have hbuffered : ({ (b.mapPlaces f g).addBuffer buffer with references } : Builder) =
              mapPlaces f g { b.addBuffer buffer with references } := by
            rw [← addBuffer_mapPlaces]
            rfl
          rw [hbuffered, hfollow e hmem, bind_map_apply]
          refine Option.bind_congr fun inner _ => ?_
          exact ih { inner with references := countBehind depth inner.references } .empty
            behind.rest

theorem addToken_mapPlaces (hfollow : FollowKeepsPlaces f g entities follow)
    (s : Builder × Bool) (t : Token) :
    addToken entities depth nesting follow (s.1.mapPlaces f g, s.2) (t.mapPlaces f g) =
      (addToken entities depth nesting follow s t).map fun u => (u.1.mapPlaces f g, u.2) := by
  obtain ⟨b, seen⟩ := s
  cases t with
  | startTag name attributes isEmpty first last =>
    simp only [Token.mapPlaces, addToken, addStartTag_mapPlaces]
    cases b.addStartTag entities depth nesting name attributes isEmpty first last <;> rfl
  | endTag name last =>
    simp only [Token.mapPlaces, addToken, addEndTag_mapPlaces]
    cases seen with
    | false => rfl
    | true => cases b.addEndTag name last <;> rfl
  | text cs =>
    simp only [Token.mapPlaces, addToken, addChars_mapPlaces hfollow]
    cases addChars entities depth follow (cs.length + 1) b .empty cs <;> rfl
  | cdata cs => exact congrArg (fun b => some (b, seen)) (addText_mapPlaces b _).symm
  | comment => exact congrArg (fun b => some (b, seen)) (addNode_mapPlaces b .comment).symm
  | instruction => exact congrArg (fun b => some (b, seen)) (addNode_mapPlaces b .instruction).symm
  | cutTag => rfl

theorem foldlM_addToken_mapPlaces (hfollow : FollowKeepsPlaces f g entities follow)
    (s : Builder × Bool) (tokens : List Token) :
    (tokens.map (Token.mapPlaces f g)).foldlM (addToken entities depth nesting follow)
        (s.1.mapPlaces f g, s.2) =
      (tokens.foldlM (addToken entities depth nesting follow) s).map
        fun u => (u.1.mapPlaces f g, u.2) := by
  induction tokens generalizing s with
  | nil => rfl
  | cons t rest ih =>
    rw [List.map_cons, List.foldlM_cons, List.foldlM_cons, addToken_mapPlaces hfollow]
    cases addToken entities depth nesting follow s t with
    | none => rfl
    | some u => exact ih u

/-! ### Entities inside entities -/

/-- Takes in the text of an entity, inside which as many entities may be nested
    as the first number says. -/
def followEntity (entities : List Entity) (depth : Nat) :
    Nat → Builder → Cursor → Option Builder
  | 0, _, _ => none
  | nesting + 1, b, value => do
    let inner ← value.contentTokens
    addTokens entities (depth + 1) nesting b inner

theorem addTokens_eq (nesting : Nat) (b : Builder) (tokens : List Token) :
    addTokens entities depth nesting b tokens =
      (tokens.foldlM (addToken entities depth nesting (followEntity entities depth nesting))
        (b, false)).map (·.1) := by
  cases nesting <;> rfl

theorem followKeepsPlaces_followEntity (hentities : EntitiesKeepPlaces f g entities)
    (nesting depth : Nat) :
    FollowKeepsPlaces f g entities (followEntity entities depth nesting) := by
  induction nesting generalizing depth with
  | zero => exact fun _ _ _ => rfl
  | succ nesting ih =>
    intro e he b
    simp only [followEntity, Option.bind_eq_bind, map_bind_apply]
    refine Option.bind_congr fun tokens htokens => ?_
    have hplaces := @foldlM_addToken_mapPlaces f g entities (depth + 1) nesting _ (ih (depth + 1))
      (b, false) tokens
    rw [hentities e he tokens htokens] at hplaces
    rw [addTokens_eq, addTokens_eq, hplaces, Option.map_map, Option.map_map]
    rfl

end Builder
end EvalRun.Xml
