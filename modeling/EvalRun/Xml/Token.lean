import EvalRun.Xml.Scan

/-! # Xml.Token — the pieces of an XML document

    A document is cut into tokens: tags, character data, comments and
    processing instructions. Tokens know where their tag begins and ends, so
    that an element can be given back as it was written. References stay in
    the character data, since what they stand for may be markup again.

    The document type declaration yields the entities it declares. Other
    declarations are passed over: the document is not validated.
-/

namespace EvalRun.Xml

/-- A name with an optional qualifier before a colon; without a colon the
    qualifier is empty. -/
structure Name where
  qualifier : List Char
  localPart : List Char
  deriving DecidableEq, Repr

/-- An attribute as it is written. -/
structure RawAttribute where
  name : Name
  /-- The characters between the quotation marks. -/
  value : List Char
  deriving DecidableEq, Repr

/-- A piece of a document. -/
inductive Token where
  /-- A start tag, from its first character up to the place behind it; an
      empty tag has no content and no end tag. -/
  | startTag (name : Name) (attributes : List RawAttribute) (isEmpty : Bool) (first last : Nat)
  /-- An end tag up to the place behind it. -/
  | endTag (name : Name) (last : Nat)
  /-- Character data with its references. -/
  | text (chars : List Char)
  /-- The content of a CDATA section. -/
  | cdata (chars : List Char)
  /-- A comment. -/
  | comment
  /-- A processing instruction. -/
  | instruction
  /-- A start tag without attributes that the end of a replacement text cuts
      off. It amounts to nothing. -/
  | cutTag
  deriving Repr

/-- An entity and the text it stands for. -/
structure Entity where
  name : List Char
  /-- The replacement text, at its place in the declaration. -/
  value : Cursor
  deriving Repr

namespace Scan

/-! ### Names and attributes -/

/-- Takes a name that has no qualifier. -/
def name : Scan (List Char) := do
  match ← peek? with
  | some c => if isNameStart c then takeWhile isNameChar else refuse
  | none => refuse

/-- The characters begin a name. -/
def beginsName : List Char → Bool
  | [] => false
  | c :: _ => isNameStart c

/-- Takes a name that may have a qualifier, and has one colon at most. -/
def qualifiedName : Scan Name := do
  let chars ← takeWhile isNameChar
  match chars.span (· ≠ ':') with
  | (whole, []) => if beginsName whole then pure ⟨[], whole⟩ else refuse
  | (qualifier, _ :: localPart) =>
    if (qualifier.isEmpty || beginsName qualifier) && beginsName localPart &&
        !localPart.contains ':' then
      pure ⟨qualifier, localPart⟩
    else refuse

/-- Takes an equals sign with white space around it. -/
def equals : Scan Unit := do
  skipSpaces
  expectChar '='
  skipSpaces

/-- Takes an attribute. Its value holds no `<`. -/
def tagAttribute : Scan RawAttribute := do
  let name ← qualifiedName
  equals
  let mark ← quote
  let value ← takeChars fun c => c ≠ mark && c ≠ '<'
  expectChar mark
  pure ⟨name, value⟩

/-! ### Markup that carries nothing -/

/-- Takes a comment. Two hyphens end it and may not stand inside. -/
def comment : Scan Unit := do
  expect "<!--"
  let content ← takeThrough "-->"
  if (splitBefore ['-', '-'] content).isSome || content.getLast? = some '-' then refuse

/-- Takes a processing instruction; the XML declaration is none. -/
def instruction : Scan Unit := do
  if ← looksAt "<?xml " then refuse
  expect "<?"
  let _ ← name
  let _ ← takeThrough "?>"

/-- Takes comments, processing instructions and white space. -/
def misc : Nat → Scan Unit
  | 0 => pure ()
  | fuel + 1 => do
    skipSpaces
    if ← looksAt "<!--" then comment; misc fuel
    else if ← looksAt "<?" then instruction; misc fuel
    else pure ()

/-- White space, unless the declaration ends here. -/
def declarationSpaces : Scan Unit := do
  if (← takeWhile isSpace).isEmpty && !(← looksAt "?>") && !(← atEnd) then refuse

/-- Takes the XML declaration. An empty one is allowed, and the values are not
    looked at. -/
def declaration : Scan Unit := do
  advance 5
  declarationSpaces
  if !(← looksAt "?>") then
    if !(← looksAt "version") then refuse
    let _ ← tagAttribute
    declarationSpaces
    if ← looksAt "encoding" then
      let _ ← tagAttribute
      declarationSpaces
    if ← looksAt "standalone" then
      let _ ← tagAttribute
      skipSpaces
  expect "?>"

/-! ### The document type declaration -/

/-- Takes a quoted literal. -/
def literal : Scan (List Char) := do
  let mark ← quote
  let value ← takeWhile (· ≠ mark)
  expectChar mark
  pure value

/-- Takes an external identifier, if one stands here. -/
def externalId : Scan Bool := do
  if ← looksAt "SYSTEM" then
    advance 6
    requireSpaces
    let _ ← literal
    pure true
  else if ← looksAt "PUBLIC" then
    advance 6
    requireSpaces
    let _ ← literal
    requireSpaces
    let _ ← literal
    pure true
  else pure false

/-- Takes the definition of an entity: its replacement text, or nothing for an
    external entity. -/
def entityDefinition (general : Bool) : Scan (Option Cursor) := do
  match ← peek? with
  | some c =>
    if c = '\x22' || c = '\x27' then
      let start ← offset
      let value ← literal
      pure (some ⟨value, start + 1⟩)
    else if ← externalId then
      if general then
        skipSpaces
        if ← looksAt "NDATA" then
          advance 5
          requireSpaces
          let _ ← name
      pure none
    else refuse
  | none => refuse

/-- Takes the declaration of an entity. -/
def entity : Scan (Option Entity) := do
  expect "<!ENTITY"
  requireSpaces
  let parameter ← looksAt "%"
  if parameter then
    advance 1
    requireSpaces
  let name ← name
  requireSpaces
  let value? ← entityDefinition !parameter
  skipSpaces
  expectChar '>'
  pure (value?.map fun value => ⟨name, value⟩)

/-- Takes the internal subset behind its opening bracket, and the bracket and
    angle that close it. A subset that breaks off is closed by the end. -/
def internalSubset (entities : List Entity) : Nat → Scan (List Entity)
  | 0 => refuse
  | fuel + 1 => do
    if ← atEnd then pure entities
    else
      skipSpaces
      if ← looksAt "<!ENTITY" then
        match ← entity with
        | some e => internalSubset (entities ++ [e]) fuel
        | none => internalSubset entities fuel
      else if ← looksAt "<!--" then comment; internalSubset entities fuel
      else if ← looksAt "<?" then instruction; internalSubset entities fuel
      else if ← looksAt "]" then
        advance 1
        skipSpaces
        expectChar '>'
        pure entities
      else if (← looksAt "<!ELEMENT") || (← looksAt "<!ATTLIST") || (← looksAt "<!NOTATION") then
        let _ ← takeWhile (· ≠ '>')
        expectChar '>'
        internalSubset entities fuel
      else refuse

/-- Takes the document type declaration: the entities it declares, in their
    order. -/
def doctype (fuel : Nat) : Scan (List Entity) := do
  expect "<!DOCTYPE"
  requireSpaces
  let _ ← name
  skipSpaces
  let _ ← externalId
  skipSpaces
  match ← peek? with
  | some c =>
    if c = '>' then advance 1; pure []
    else if c = '[' then advance 1; internalSubset [] fuel
    else refuse
  | none => refuse

/-! ### Content -/

/-- Takes the attributes of a start tag and the end of the tag, and tells
    whether it is empty. An attribute has white space before it. -/
def startTagRest (attributes : List RawAttribute) : Nat → Scan (List RawAttribute × Bool)
  | 0 => refuse
  | fuel + 1 => do
    let spaces ← takeWhile isSpace
    if ← looksAt "/" then
      advance 1
      expectChar '>'
      pure (attributes.reverse, true)
    else if ← looksAt ">" then
      advance 1
      pure (attributes.reverse, false)
    else if spaces.isEmpty then refuse
    else startTagRest ((← tagAttribute) :: attributes) fuel

/-- Takes a start tag. -/
def startTag (fuel : Nat) : Scan Token := do
  let first ← offset
  expectChar '<'
  let name ← qualifiedName
  if ← atEnd then pure .cutTag
  else
    let (attributes, isEmpty) ← startTagRest [] fuel
    let last ← offset
    pure (.startTag name attributes isEmpty first last)

/-- Takes an end tag. -/
def endTag : Scan Token := do
  expect "</"
  let name ← qualifiedName
  skipSpaces
  expectChar '>'
  let last ← offset
  pure (.endTag name last)

/-- Takes character data. The end of a CDATA section may not stand in it. -/
def text : Scan Token := do
  let chars ← takeChars (· ≠ '<')
  if (splitBefore [']', ']', '>'] chars).isSome then refuse
  pure (.text chars)

/-- Takes one token of content. -/
def contentToken (fuel : Nat) : Scan Token := do
  if ← looksAt "<!--" then comment; pure .comment
  else if ← looksAt "<![CDATA[" then
    advance 9
    let chars ← takeThrough "]]>"
    pure (.cdata chars)
  else if ← looksAt "<?" then instruction; pure .instruction
  else if ← looksAt "</" then endTag
  else if ← looksAt "<" then startTag fuel
  else text

/-- Takes the content of an element through the end tag that belongs to it, or
    up to the end. The number says how many elements were opened inside. -/
def content (opened : Nat) (tokens : List Token) : Nat → Scan (List Token)
  | 0 => refuse
  | fuel + 1 => do
    if ← atEnd then pure tokens.reverse
    else
      let token ← contentToken fuel
      match token with
      | .startTag _ _ false _ _ => content (opened + 1) (token :: tokens) fuel
      | .endTag _ _ =>
        match opened with
        | 0 => pure (token :: tokens).reverse
        | n + 1 => content n (token :: tokens) fuel
      | _ => content opened (token :: tokens) fuel

/-- Takes the root element, if a tag stands here. -/
def rootElement (fuel : Nat) : Scan (List Token) := do
  if ← looksAt "<" then
    let tag ← startTag fuel
    match tag with
    | .startTag _ _ false _ _ =>
      let inner ← content 0 [] fuel
      pure (tag :: inner)
    | _ => pure [tag]
  else pure []

/-- Takes a document: its entities, and the tokens of its root element. -/
def document (fuel : Nat) : Scan (List Entity × List Token) := do
  if ← looksAt "\uFEFF" then advance 1
  if ← looksAt "<?xml " then declaration
  misc fuel
  skipSpaces
  let entities ←
    if ← looksAt "<!DOCTYPE" then
      let entities ← doctype fuel
      misc fuel
      pure entities
    else pure []
  skipSpaces
  let tokens ← rootElement fuel
  misc fuel
  if ← atEnd then pure (entities, tokens) else refuse

end Scan

/-- The tokens of a replacement text, read as content. -/
def Cursor.contentTokens (c : Cursor) : Option (List Token) :=
  (Scan.content 0 [] (c.rest.length + 1) c).map (·.1)

/-- The entities and tokens of a document. -/
def documentTokens (chars : List Char) : Option (List Entity × List Token) :=
  (Scan.document (chars.length + 1) ⟨chars, 0⟩).map (·.1)

end EvalRun.Xml
