import EvalRun.Xml.Character

/-! # Xml.Scan — reading characters from a document

    A scan reads from a cursor, which knows what is left of the document and
    how far it has come. A scan either takes characters and returns a value, or
    fails; why a document is refused is never told, so a failure carries
    nothing.
-/

namespace EvalRun.Xml

/-- A place in a document. -/
structure Cursor where
  /-- The characters from this place on. -/
  rest : List Char
  /-- The number of characters before this place. -/
  offset : Nat
  deriving DecidableEq, Repr

/-- A computation that reads from a cursor and may fail. -/
abbrev Scan := StateT Cursor Option

namespace Scan

/-- Fails. -/
def refuse {α : Type} : Scan α := fun _ => none

/-- The next character, which stays. -/
def peek? : Scan (Option Char) := fun c => some (c.rest.head?, c)

/-- Nothing is left. -/
def atEnd : Scan Bool := fun c => some (c.rest.isEmpty, c)

/-- The rest begins with the given characters. -/
def looksAt (word : String) : Scan Bool := fun c => some (word.toList.isPrefixOf c.rest, c)

/-- Passes over a number of characters. -/
def advance (n : Nat) : Scan Unit := fun c => some ((), ⟨c.rest.drop n, c.offset + n⟩)

/-- The number of characters before this place. -/
def offset : Scan Nat := fun c => some (c.offset, c)

/-- Takes the given characters. -/
def expect (word : String) : Scan Unit := do
  if ← looksAt word then advance word.length else refuse

/-- Takes characters while they satisfy a condition. -/
def takeWhile (p : Char → Bool) : Scan (List Char) := fun c =>
  let taken := c.rest.takeWhile p
  some (taken, ⟨c.rest.dropWhile p, c.offset + taken.length⟩)

/-- Takes characters of a document while they satisfy a condition. Any other
    character met before the condition fails is refused. -/
def takeChars (p : Char → Bool) : Scan (List Char) := do
  let taken ← takeWhile p
  if taken.all isXmlChar then
    match ← peek? with
    | some c => if isXmlChar c then pure taken else refuse
    | none => pure taken
  else refuse

/-- Splits a text before the first place where a word begins. -/
def splitBefore (word : List Char) : List Char → Option (List Char × List Char)
  | [] => none
  | c :: rest =>
    if word.isPrefixOf (c :: rest) then some ([], c :: rest)
    else (splitBefore word rest).map fun (before, after) => (c :: before, after)

/-- Takes characters of a document up to the given word, and the word. -/
def takeThrough (word : String) : Scan (List Char) := fun c => do
  let (before, after) ← splitBefore word.toList c.rest
  if before.all isXmlChar then
    some (before, ⟨after.drop word.length, c.offset + before.length + word.length⟩)
  else none

/-- Passes over white space. -/
def skipSpaces : Scan Unit := do
  let _ ← takeWhile isSpace

/-- Passes over white space, of which there must be some. -/
def requireSpaces : Scan Unit := do
  let spaces ← takeWhile isSpace
  if spaces.isEmpty then refuse

/-- Takes a quotation mark. -/
def quote : Scan Char := do
  match ← peek? with
  | some c => if c = '\x22' || c = '\x27' then advance 1; pure c else refuse
  | none => refuse

/-- Takes the given character. -/
def expectChar (c : Char) : Scan Unit := do
  if (← peek?) = some c then advance 1 else refuse

end Scan

end EvalRun.Xml
