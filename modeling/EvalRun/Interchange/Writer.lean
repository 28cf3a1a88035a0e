import EvalRun.Json.Number

/-! # Interchange.Writer — JSON without white space

    Values are written in one line without blanks. Of the characters of a
    string, only those that cannot stand in JSON are escaped: quotation marks,
    backslashes and controls.
-/

namespace EvalRun.Interchange

/-- A control character in four hexadecimal digits. -/
def escapedControl (c : Char) : List Char :=
  let digits := Nat.toDigits 16 c.toNat
  ['\\', 'u'] ++ List.replicate (4 - digits.length) '0' ++ digits

/-- A character in a string. -/
def writeChar (c : Char) : List Char :=
  if c = '\x22' then ['\\', '\x22']
  else if c = '\\' then ['\\', '\\']
  else if c = '\x08' then ['\\', 'b']
  else if c = '\x0C' then ['\\', 'f']
  else if c = '\n' then ['\\', 'n']
  else if c = '\r' then ['\\', 'r']
  else if c = '\t' then ['\\', 't']
  else if c.toNat < 0x20 then escapedControl c
  else [c]

/-- A string. -/
def writeString (s : String) : String :=
  String.ofList ('\x22' :: s.toList.flatMap writeChar ++ ['\x22'])

/-- A boolean. -/
def writeBoolean (b : Bool) : String := if b then "true" else "false"

/-- A natural number. -/
def writeNatural (n : Nat) : String := toString n

/-- A double; one that is not finite has no form, and is written as missing. -/
def writeDouble (x : Binary64) : String :=
  if x.isFinite then Json.numberLayout.render x else "null"

/-- An array of elements that are written already. -/
def writeArray (elements : List String) : String :=
  "[" ++ String.intercalate "," elements ++ "]"

/-- An object of members whose values are written already. -/
def writeObject (members : List (String × String)) : String :=
  let written := members.map fun (name, value) => writeString name ++ ":" ++ value
  "\x7b" ++ String.intercalate "," written ++ "\x7d"

/-- A member, or nothing if its value is missing. -/
def presentMember {α : Type} (name : String) (write : α → String) :
    Option α → List (String × String)
  | none => []
  | some value => [(name, write value)]

end EvalRun.Interchange
