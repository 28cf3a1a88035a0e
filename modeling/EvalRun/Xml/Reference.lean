import EvalRun.Xml.Token

/-! # Xml.Reference — references and the characters around them

    A reference names a character by its number, or an entity by its name.
    Five entities are built in and cannot be declared anew. Of two
    declarations of one entity the first counts.

    Line ends in character data become line feeds. A carriage return waits for
    the next character to decide: a line feed behind it makes one line end with
    it, and any other character makes it a line end of its own. Characters
    written as references outside entities are taken as they are, and so is
    the one character behind each.
-/

namespace EvalRun.Xml

/-- What a reference stands for. -/
inductive Reference where
  /-- A character. -/
  | char (c : Char)
  /-- A declared entity. -/
  | entity (name : List Char)
  deriving DecidableEq, Repr

/-- The entities that need no declaration. -/
def builtinEntity? (name : List Char) : Option Char :=
  if name = "quot".toList then some '\x22'
  else if name = "amp".toList then some '&'
  else if name = "apos".toList then some '\x27'
  else if name = "lt".toList then some '<'
  else if name = "gt".toList then some '>'
  else none

/-- The value of a digit of the given base, ten or sixteen. -/
def digitValue (c : Char) : Nat :=
  if c.isDigit then c.toNat - '0'.toNat
  else if 'a' ≤ c then c.toNat - 'a'.toNat + 10
  else c.toNat - 'A'.toNat + 10

/-- A decimal digit, or with base sixteen a hexadecimal one. -/
def isDigitOf (base : Nat) (c : Char) : Bool :=
  c.isDigit || (base = 16 && (('a' ≤ c && c ≤ 'f') || ('A' ≤ c && c ≤ 'F')))

/-- The character with the given number. A number of 32 bits that is none of a
    character stands for the replacement character. -/
def charOfNumber? (n : Nat) : Option Char :=
  if 0x100000000 ≤ n then none
  else
    let c := if n < 0xD800 ∨ 0xDFFF < n ∧ n < 0x110000 then Char.ofNat n else '\uFFFD'
    if isXmlChar c then some c else none

/-- Takes a reference behind its ampersand. -/
def Scan.reference : Scan Reference := do
  let reference ←
    if ← looksAt "#" then
      advance 1
      let base ← if ← looksAt "x" then advance 1; pure 16 else pure 10
      let digits ← takeWhile (isDigitOf base)
      if digits.isEmpty then refuse
      match charOfNumber? (digits.foldl (fun n c => n * base + digitValue c) 0) with
      | some c => pure (.char c)
      | none => refuse
    else
      let name ← name
      match builtinEntity? name with
      | some c => pure (.char c)
      | none => pure (.entity name)
  expectChar ';'
  pure reference

/-- The value of a declared entity. -/
def findEntity? (entities : List Entity) (name : List Char) : Option Cursor :=
  (entities.find? fun e => e.name = name).map (·.value)

/-! ### How often entities may be nested -/

/-- Entities are nested ten deep at most. -/
def maxEntityDepth : Nat := 10

/-- Inside an entity, at most this many references may be followed. -/
def maxEntityReferences : Nat := 255

/-- The count of followed references with one more, at a depth of nesting.
    Outside entities they are not counted. -/
def countReference (depth references : Nat) : Option Nat :=
  if depth = 0 then some references
  else if references < maxEntityReferences then some (references + 1)
  else none

/-- The count behind an entity. It starts again once no entity is open. -/
def countBehind (depth references : Nat) : Nat := if depth = 0 then 0 else references

/-! ### Line ends -/

/-- Character data taken in so far. -/
structure TextBuffer where
  /-- The characters, in reverse. -/
  chars : List Char
  /-- The next character is taken as it is. -/
  literalNext : Bool
  deriving Repr

namespace TextBuffer

/-- Nothing taken in. -/
def empty : TextBuffer := ⟨[], false⟩

/-- Takes a character in as it is. -/
def pushLiteral (b : TextBuffer) (c : Char) : TextBuffer := { b with chars := c :: b.chars }

/-- Takes a character in and settles a carriage return before it. At the end
    of the text a carriage return is settled at once. -/
def pushSettled (b : TextBuffer) (c : Char) (isLast : Bool) : TextBuffer :=
  let chars :=
    match b.chars with
    | '\r' :: before =>
      if isLast && c = '\r' then '\n' :: '\n' :: before
      else if c = '\n' then '\n' :: before
      else c :: '\n' :: before
    | before => if isLast && c = '\r' then '\n' :: before else c :: before
  { b with chars }

/-- Takes a character of the text in. -/
def push (b : TextBuffer) (c : Char) (isLast : Bool) : TextBuffer :=
  if b.literalNext then { b.pushLiteral c with literalNext := false } else b.pushSettled c isLast

/-- Takes a character in that was written as a reference. -/
def pushReferenced (b : TextBuffer) (c : Char) (inEntity isLast : Bool) : TextBuffer :=
  if inEntity then b.pushSettled c isLast else { b.pushLiteral c with literalNext := true }

/-- The characters taken in. -/
def text (b : TextBuffer) : List Char := b.chars.reverse

/-- Character data taken in behind what was taken in before. -/
def pushAll (b : TextBuffer) : List Char → TextBuffer
  | [] => b
  | c :: rest => pushAll (b.push c rest.isEmpty) rest

end TextBuffer

/-- Character data in which line ends are line feeds. -/
def normalizeLines (chars : List Char) : List Char := (TextBuffer.empty.pushAll chars).text

/-! ### Attribute values -/

/-- A character of an attribute value: line ends and tabs become spaces, and a
    carriage return before a line feed is left out. -/
def attributeChar (c : Char) (next : Option Char) : List Char :=
  if c = '\r' && next = some '\n' then []
  else if c = '\r' || c = '\n' || c = '\t' then [' ']
  else [c]

/-- The value of an attribute with its references replaced, where `follow`
    replaces an entity, and the count of references followed. `depth` entities
    are open around the value; inside an entity no `<` may stand. -/
def normalizeAttributeWith (entities : List Entity) (depth : Nat)
    (follow : Cursor → Nat → Option (List Char × Nat)) :
    Nat → Cursor → Nat → Option (List Char × Nat)
  | 0, _, _ => none
  | fuel + 1, cursor, references =>
    match cursor.rest with
    | [] => some ([], references)
    | c :: rest =>
      let behind : Cursor := ⟨rest, cursor.offset + 1⟩
      if c ≠ '&' then
        if c = '<' && depth ≠ 0 then none
        else do
          let (tail, references) ←
            normalizeAttributeWith entities depth follow fuel behind references
          some (attributeChar c rest.head? ++ tail, references)
      else do
        let (reference, behind) ← Scan.reference behind
        match reference with
        | .char c =>
          if c = '<' && depth ≠ 0 then none
          else
            let (tail, references) ←
              normalizeAttributeWith entities depth follow fuel behind references
            some ((if depth = 0 then [c] else attributeChar c none) ++ tail, references)
        | .entity name =>
          let value ← findEntity? entities name
          let references ← countReference depth references
          let (inner, references) ← follow value references
          let (tail, references) ← normalizeAttributeWith entities depth follow fuel behind
            (countBehind depth references)
          some (inner ++ tail, references)

/-- The value of an attribute with its references replaced, and the count of
    references followed. `depth` entities are open around the value, and the
    number behind says how many more may be opened. -/
def normalizeAttribute (entities : List Entity) (depth : Nat) :
    Nat → Cursor → Nat → Option (List Char × Nat)
  | 0, cursor, references =>
    normalizeAttributeWith entities depth (fun _ _ => none) (cursor.rest.length + 1) cursor
      references
  | nesting + 1, cursor, references =>
    normalizeAttributeWith entities depth (normalizeAttribute entities (depth + 1) nesting)
      (cursor.rest.length + 1) cursor references

end EvalRun.Xml
