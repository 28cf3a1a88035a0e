import EvalRun.Toml.Value

/-! # Toml.Text — characters, keys and strings of TOML

    Readers take a list of characters and return what they read with the
    characters behind it, or nothing. Four forms of strings are read: in
    single or triple quotation marks, and with or without escapes.
-/

namespace EvalRun.Toml

/-! ### Characters -/

/-- A character that may stand in a comment, and in a string by itself: a tab,
    or any character that is not a control. -/
def isPlain (c : Char) : Bool := c = '\t' || (0x20 ≤ c.toNat && c.toNat ≠ 0x7F)

/-- A space or a tab. -/
def isBlank (c : Char) : Bool := c = ' ' || c = '\t'

/-- The characters behind leading blanks. -/
def skipBlanks (cs : List Char) : List Char := cs.dropWhile isBlank

/-- The characters behind a line end, if one stands here. -/
def lineEnd? : List Char → Option (List Char)
  | '\n' :: rest => some rest
  | '\r' :: '\n' :: rest => some rest
  | _ => none

/-- The characters behind a comment, if one stands here; else all of them. -/
def skipComment : List Char → List Char
  | '#' :: rest => rest.dropWhile isPlain
  | cs => cs

/-- The characters behind blanks, a comment and the end of the line. -/
def endOfLine? (cs : List Char) : Option (List Char) :=
  match skipComment (skipBlanks cs) with
  | [] => some []
  | rest => lineEnd? rest

/-- The characters behind blanks, comments and line ends. A comment must be
    ended by its line. -/
def skipLines : Nat → List Char → Option (List Char)
  | 0, cs => some cs
  | fuel + 1, cs =>
    match skipBlanks cs with
    | '#' :: rest => (lineEnd? (rest.dropWhile isPlain)).bind (skipLines fuel)
    | '\n' :: rest => skipLines fuel rest
    | '\r' :: rest => (lineEnd? ('\r' :: rest)).bind (skipLines fuel)
    | rest => some rest

/-! ### Escapes -/

/-- The value of a hexadecimal digit. -/
def hexValue? (c : Char) : Option Nat :=
  if '0' ≤ c && c ≤ '9' then some (c.toNat - '0'.toNat)
  else if 'a' ≤ c && c ≤ 'f' then some (c.toNat - 'a'.toNat + 10)
  else if 'A' ≤ c && c ≤ 'F' then some (c.toNat - 'A'.toNat + 10)
  else none

/-- The character whose number is written with the given digits. -/
def hexChar? (digits : List Char) : Option Char := do
  let values ← digits.mapM hexValue?
  let n := values.foldl (fun n v => n * 16 + v) 0
  if n < 0xD800 ∨ 0xDFFF < n ∧ n < 0x110000 then some (Char.ofNat n) else none

/-- Reads an escape behind its backslash. -/
def escape? : List Char → Option (Char × List Char)
  | 'b' :: rest => some ('\x08', rest)
  | 't' :: rest => some ('\t', rest)
  | 'n' :: rest => some ('\n', rest)
  | 'f' :: rest => some ('\x0C', rest)
  | 'r' :: rest => some ('\r', rest)
  | '\x22' :: rest => some ('\x22', rest)
  | '\\' :: rest => some ('\\', rest)
  | 'u' :: rest =>
    if rest.length < 4 then none else (hexChar? (rest.take 4)).map (·, rest.drop 4)
  | 'U' :: rest =>
    if rest.length < 8 then none else (hexChar? (rest.take 8)).map (·, rest.drop 8)
  | _ => none

/-! ### Strings on one line -/

/-- Reads a string with escapes behind its opening quotation mark. -/
def basic? : Nat → List Char → Option (List Char × List Char)
  | 0, _ => none
  | _, [] => none
  | fuel + 1, c :: rest =>
    if c = '\x22' then some ([], rest)
    else if c = '\\' then do
      let (c, rest) ← escape? rest
      let (tail, rest) ← basic? fuel rest
      some (c :: tail, rest)
    else if isPlain c then do
      let (tail, rest) ← basic? fuel rest
      some (c :: tail, rest)
    else none

/-- Reads a string without escapes behind its opening quotation mark. -/
def literal? : List Char → Option (List Char × List Char)
  | [] => none
  | c :: rest =>
    if c = '\x27' then some ([], rest)
    else if isPlain c then (literal? rest).map fun (tail, rest) => (c :: tail, rest)
    else none

/-! ### Strings over several lines -/

/-- The characters behind a line end that follows the opening marks. -/
def skipFirstLineEnd (cs : List Char) : List Char := (lineEnd? cs).getD cs

/-- The characters behind blanks and line ends. -/
def skipSpaces : List Char → List Char
  | '\n' :: rest => skipSpaces rest
  | '\r' :: '\n' :: rest => skipSpaces rest
  | ' ' :: rest => skipSpaces rest
  | '\t' :: rest => skipSpaces rest
  | cs => cs

/-- The characters behind a line end with blanks before it, and behind all
    blanks and line ends that follow: what a backslash at the end of a line
    takes out of a string. -/
def continuation? (cs : List Char) : Option (List Char) :=
  (lineEnd? (skipBlanks cs)).map skipSpaces

/-- What a run of quotation marks means inside triple marks: up to two belong
    to the string, and three of the others end it, with at most two before
    them. Gives the marks of the string and, if it ends, the characters behind
    it. -/
def marks (mark : Char) (cs : List Char) : List Char × Option (List Char) :=
  let run := (cs.takeWhile (· = mark)).length
  if run < 3 then (List.replicate run mark, none)
  else
    let own := min (run - 3) 2
    (List.replicate own mark, some (cs.drop (own + 3)))

/-- Reads a string in triple marks, behind the opening ones. -/
def multiline? (mark : Char) (escapes : Bool) : Nat → List Char → Option (List Char × List Char)
  | 0, _ => none
  | _, [] => none
  | fuel + 1, c :: rest =>
    if c = mark then
      match marks mark (c :: rest) with
      | (own, some behind) => some (own, behind)
      | (own, none) => do
        let (tail, behind) ← multiline? mark escapes fuel ((c :: rest).drop own.length)
        some (own ++ tail, behind)
    else if c = '\\' && escapes then
      match continuation? rest with
      | some rest => multiline? mark escapes fuel rest
      | none => do
        let (c, rest) ← escape? rest
        let (tail, rest) ← multiline? mark escapes fuel rest
        some (c :: tail, rest)
    else
      match lineEnd? (c :: rest) with
      | some rest => do
        let (tail, rest) ← multiline? mark escapes fuel rest
        some ('\n' :: tail, rest)
      | none =>
        if isPlain c then do
          let (tail, rest) ← multiline? mark escapes fuel rest
          some (c :: tail, rest)
        else none

/-- Reads a string of any form. -/
def string? (cs : List Char) : Option (List Char × List Char) :=
  match cs with
  | '\x22' :: '\x22' :: '\x22' :: rest =>
    multiline? '\x22' true (cs.length + 1) (skipFirstLineEnd rest)
  | '\x27' :: '\x27' :: '\x27' :: rest =>
    multiline? '\x27' false (cs.length + 1) (skipFirstLineEnd rest)
  | '\x22' :: rest => basic? (cs.length + 1) rest
  | '\x27' :: rest => literal? rest
  | _ => none

/-! ### Keys -/

/-- A character of a key that needs no quotation marks. -/
def isBare (c : Char) : Bool := c.isAlphanum || c = '-' || c = '_'

/-- Reads one part of a key. -/
def simpleKey? (cs : List Char) : Option (String × List Char) :=
  match cs with
  | '\x22' :: rest => (basic? (cs.length + 1) rest).map fun (s, rest) => (String.ofList s, rest)
  | '\x27' :: rest => (literal? rest).map fun (s, rest) => (String.ofList s, rest)
  | _ =>
    let bare := cs.takeWhile isBare
    if bare.isEmpty then none else some (String.ofList bare, cs.dropWhile isBare)

/-- A key has fewer parts than this. -/
def maxKeyParts : Nat := 80

/-- Reads the parts of a key, with blanks around each. -/
def keyParts? : Nat → List Char → Option (List String × List Char)
  | 0, _ => none
  | fuel + 1, cs => do
    let (part, rest) ← simpleKey? (skipBlanks cs)
    match skipBlanks rest with
    | '.' :: rest => do
      let (parts, rest) ← keyParts? fuel rest
      some (part :: parts, rest)
    | rest => some ([part], rest)

/-- Reads a key: the path of its first parts, and its last part. -/
def key? (cs : List Char) : Option ((List String × String) × List Char) := do
  let (parts, rest) ← keyParts? (maxKeyParts - 1) cs
  let last ← parts.getLast?
  some ((parts.dropLast, last), rest)

end EvalRun.Toml
