import EvalRun.Xml.Namespaces
import EvalRun.Xml.Reference
import EvalRun.Xml.Tree

/-! # Xml.Document — from the tokens of a document to its tree

    The tokens are taken in one after another. The state holds the elements
    that are still open, innermost first, each with the children it has so far
    and the namespaces in force inside it.

    A reference to an entity in character data is replaced by the tokens of the
    entity's text, which are taken in at the place of the reference. So an
    entity may bring elements, and its text joins the text around it.
-/

namespace EvalRun.Xml

/-- An element whose end tag is still to come. -/
structure OpenElement where
  /-- The name, as its end tag must repeat it. -/
  name : Name
  /-- The place of its first character. -/
  first : Nat
  /-- The namespaces in force inside. -/
  bindings : List Binding
  /-- The children so far, in reverse. -/
  children : List Node

/-- A tree under construction. -/
structure Builder where
  /-- The elements that are open, the innermost first. -/
  opened : List OpenElement
  /-- The nodes outside all elements, in reverse. -/
  top : List Node
  /-- The references followed since no entity was open. -/
  references : Nat

namespace Builder

/-- Nothing taken in. -/
def start : Builder := ⟨[], [], 0⟩

/-- The namespaces in force. -/
def bindings (b : Builder) : List Binding :=
  match b.opened with
  | [] => []
  | e :: _ => e.bindings

/-- Changes the children at the current place. -/
def mapChildren (b : Builder) (f : List Node → List Node) : Builder :=
  match b.opened with
  | [] => { b with top := f b.top }
  | e :: outer => { b with opened := { e with children := f e.children } :: outer }

/-- Adds a node. -/
def addNode (b : Builder) (n : Node) : Builder := b.mapChildren (n :: ·)

/-- Adds character data, to the text node before it if there is one. -/
def addText (b : Builder) (chars : List Char) : Builder :=
  b.mapChildren fun
    | .text before :: rest => .text (before ++ chars) :: rest
    | nodes => .text chars :: nodes

/-- Adds the character data of a buffer, if there is any. -/
def addBuffer (b : Builder) (buffer : TextBuffer) : Builder :=
  if buffer.chars.isEmpty then b else b.addText buffer.text

/-- Takes in a start tag. Its attributes are normalized, its namespaces bound,
    and the rules on them checked. -/
def addStartTag (b : Builder) (entities : List Entity) (depth nesting : Nat) (name : Name)
    (attributes : List RawAttribute) (isEmpty : Bool) (first last : Nat) : Option Builder := do
  if name.qualifier = "xmlns".toList then none
  else
    let (values, references) ← attributes.foldlM (fun (done, references) a => do
        let (value, references) ← normalizeAttribute entities depth nesting ⟨a.value, 0⟩ references
        some (done ++ [(⟨a.name, value⟩ : Attribute)], references)) ([], b.references)
    let b := { b with references }
    let t ← TagAttributes.ofList values
    let bindings := innerBindings t.bindings b.bindings
    if attributesValid bindings t.others && elementValid bindings name then
      if isEmpty then some (b.addNode (.element name.localPart first last []))
      else some { b with opened := ⟨name, first, bindings, []⟩ :: b.opened }
    else none

/-- Takes in an end tag, which must repeat the name of the innermost element. -/
def addEndTag (b : Builder) (name : Name) (last : Nat) : Option Builder :=
  match b.opened with
  | [] => none
  | e :: outer =>
    if e.name = name then
      some ({ b with opened := outer }.addNode
        (.element e.name.localPart e.first last e.children.reverse))
    else none

/-- Takes in character data, where `follow` takes in an entity. What was read
    since the last entity is in the buffer. -/
def addChars (entities : List Entity) (depth : Nat)
    (follow : Builder → Cursor → Option Builder) :
    Nat → Builder → TextBuffer → List Char → Option Builder
  | 0, _, _, _ => none
  | fuel + 1, b, buffer, chars =>
    match chars with
    | [] => some (b.addBuffer buffer)
    | c :: rest =>
      if c ≠ '&' then addChars entities depth follow fuel b (buffer.push c rest.isEmpty) rest
      else do
        let (reference, behind) ← Scan.reference ⟨rest, 0⟩
        match reference with
        | .char c =>
          let isLast := behind.rest.isEmpty
          addChars entities depth follow fuel b (buffer.pushReferenced c (depth ≠ 0) isLast)
            behind.rest
        | .entity name =>
          let value ← findEntity? entities name
          let references ← countReference depth b.references
          let b ← follow { b.addBuffer buffer with references } value
          let b := { b with references := countBehind depth b.references }
          addChars entities depth follow fuel b .empty behind.rest

/-- Takes in a token. An end tag inside an entity must come behind a start tag
    of that entity; whether there was one, the flag says. -/
def addToken (entities : List Entity) (depth nesting : Nat)
    (follow : Builder → Cursor → Option Builder) :
    Builder × Bool → Token → Option (Builder × Bool)
  | (b, _), .startTag name attributes isEmpty first last => do
    let b ← b.addStartTag entities depth nesting name attributes isEmpty first last
    some (b, true)
  | (b, tagSeen), .endTag name last => do
    if tagSeen then
      let b ← b.addEndTag name last
      some (b, true)
    else none
  | (b, tagSeen), .text chars => do
    let b ← addChars entities depth follow (chars.length + 1) b .empty chars
    some (b, tagSeen)
  | (b, tagSeen), .cdata chars => some (b.addText (normalizeLines chars), tagSeen)
  | (b, tagSeen), .comment => some (b.addNode .comment, tagSeen)
  | (b, tagSeen), .instruction => some (b.addNode .instruction, tagSeen)
  | (b, _), .cutTag => some (b, true)

/-- Takes in tokens inside `depth` entities; the number behind says how many
    more may be opened. -/
def addTokens (entities : List Entity) (depth : Nat) :
    Nat → Builder → List Token → Option Builder
  | 0, b, tokens =>
    (tokens.foldlM (addToken entities depth 0 fun _ _ => none) (b, false)).map (·.1)
  | nesting + 1, b, tokens =>
    let follow := fun b (value : Cursor) => do
      let inner ← value.contentTokens
      addTokens entities (depth + 1) nesting b inner
    (tokens.foldlM (addToken entities depth (nesting + 1) follow) (b, false)).map (·.1)

end Builder

/-- A document: its characters and its root element. -/
structure Document where
  /-- The characters as they were read. -/
  chars : List Char
  /-- The root element. -/
  root : Node

/-- Reads a document: nothing if it is not well-formed. -/
def Document.parse (text : String) : Option Document := do
  let chars := text.toList
  let (entities, tokens) ← documentTokens chars
  let b ← Builder.start.addTokens entities 0 maxEntityDepth tokens
  if b.opened.isEmpty then
    let root ← b.top.reverse.find? Node.isElement
    some ⟨chars, root⟩
  else none

/-- A document is read if its tokens leave nothing open and bring an element. -/
theorem Document.parse_eq_some_iff {text : String} {document : Document} :
    Document.parse text = some document ↔ ∃ entities tokens b root,
      documentTokens text.toList = some (entities, tokens) ∧
      Builder.start.addTokens entities 0 maxEntityDepth tokens = some b ∧ b.opened = [] ∧
      b.top.reverse.find? Node.isElement = some root ∧ document = ⟨text.toList, root⟩ := by
  unfold Document.parse
  simp only [Option.bind_eq_bind, Option.bind_eq_some_iff, Prod.exists]
  constructor
  · rintro ⟨entities, tokens, htokens, b, hb, h⟩
    split at h
    · rename_i hclosed
      obtain ⟨root, hroot, heq⟩ := Option.bind_eq_some_iff.1 h
      exact ⟨entities, tokens, b, root, htokens, hb, List.isEmpty_iff.1 hclosed, hroot,
        (Option.some.inj heq).symm⟩
    · cases h
  · rintro ⟨entities, tokens, b, root, htokens, hb, hclosed, hroot, rfl⟩
    refine ⟨entities, tokens, htokens, b, hb, ?_⟩
    rw [if_pos (List.isEmpty_iff.2 hclosed), hroot]
    rfl

end EvalRun.Xml
