import EvalRun.Binary64.Layout

/-! # Toml.Writer — writing settings as a TOML document

    A document is written as keys at the top and sections below them, with a
    blank line before each section. Strings are written in the plainest form
    that holds them:

    1. in double quotation marks, if nothing in them needs an escape;
    2. in single ones;
    3. in triple double ones without escapes;
    4. in triple single ones;
    5. with escapes, in triple marks if there is a line feed and in double
       marks otherwise.

    An integer beyond 64 bits with sign has no form, and makes the whole
    document one that is not written.
-/

namespace EvalRun.Toml

/-- A setting that can be written. -/
inductive Scalar where
  | string (s : String)
  | natural (n : Nat)
  | float (x : Binary64)
  | boolean (b : Bool)
  deriving DecidableEq, Repr

/-- Keys with their settings. -/
abbrev Settings := List (String × Scalar)

/-- What is written: the settings at the top, and named sections. -/
structure Layout where
  top : Settings
  sections : List (String × Settings)
  deriving DecidableEq, Repr

/-! ### Strings -/

/-- A character that only an escape can bring into a string: a control other
    than a tab or a line feed. -/
def needsEscape (c : Char) : Bool := (c.toNat < 0x20 && c ≠ '\t' && c ≠ '\n') || c.toNat = 0x7F

/-- The length of the longest run of a character. -/
def longestRun (mark : Char) (current longest : Nat) : List Char → Nat
  | [] => max current longest
  | c :: rest =>
    if c = mark then longestRun mark (current + 1) longest rest
    else longestRun mark 0 (max current longest) rest

/-- How a string is set between marks. -/
inductive StringForm where
  /-- In double quotation marks. -/
  | basic
  /-- In single quotation marks. -/
  | literal
  /-- In triple double quotation marks. -/
  | multilineBasic
  /-- In triple single quotation marks. -/
  | multilineLiteral
  deriving DecidableEq, Repr

/-- The form a string is written in. -/
def formOf (cs : List Char) : StringForm :=
  let controls := cs.any needsEscape
  let lineFeed := cs.contains '\n'
  let backslash := cs.contains '\\'
  if !controls && !backslash && !cs.contains '\x22' && !lineFeed then .basic
  else if !controls && !cs.contains '\x27' && !lineFeed then .literal
  else if !controls && !backslash && longestRun '\x22' 0 0 cs ≤ 2 then .multilineBasic
  else if !controls && longestRun '\x27' 0 0 cs ≤ 2 then .multilineLiteral
  else if lineFeed then .multilineBasic
  else .basic

/-- Four hexadecimal digits in capital letters. -/
def hexDigits4 (n : Nat) : List Char :=
  [n / 4096 % 16, n / 256 % 16, n / 16 % 16, n % 16].map fun d =>
    if d < 10 then Char.ofNat ('0'.toNat + d) else Char.ofNat ('A'.toNat + d - 10)

/-- How a character is written where escapes are read. In triple marks a line
    feed stands for itself. -/
def escapeChar (multiline : Bool) (c : Char) : List Char :=
  if c = '\x08' then ['\\', 'b']
  else if c = '\t' then ['\\', 't']
  else if c = '\n' then if multiline then ['\n'] else ['\\', 'n']
  else if c = '\x0C' then ['\\', 'f']
  else if c = '\r' then ['\\', 'r']
  else if c = '\\' then ['\\', '\\']
  else if c.toNat < 0x20 || c.toNat = 0x7F then '\\' :: 'u' :: hexDigits4 c.toNat
  else [c]

/-- A string where escapes are read. Of quotation marks in a row, every one
    beyond `allowed` is escaped; `row` of them stand before. -/
def escapeAll (multiline : Bool) (allowed row : Nat) : List Char → List Char
  | [] => []
  | c :: rest =>
    if c = '\x22' then
      if row < allowed then c :: escapeAll multiline allowed (row + 1) rest
      else '\\' :: c :: escapeAll multiline allowed 0 rest
    else escapeChar multiline c ++ escapeAll multiline allowed 0 rest

/-- A string in a form. A string with a line feed starts on a line of its
    own. -/
def writeStringAs (form : StringForm) (cs : List Char) : List Char :=
  let firstLine := if cs.contains '\n' then ['\n'] else []
  match form with
  | .basic => '\x22' :: escapeAll false 0 0 cs ++ ['\x22']
  | .literal => '\x27' :: cs ++ ['\x27']
  | .multilineBasic =>
    let marks := ['\x22', '\x22', '\x22']
    marks ++ firstLine ++ escapeAll true 2 0 cs ++ marks
  | .multilineLiteral =>
    let marks := ['\x27', '\x27', '\x27']
    marks ++ firstLine ++ cs ++ marks

/-- A string as it is written. -/
def writeString (s : String) : List Char := writeStringAs (formOf s.toList) s.toList

/-! ### Documents -/

/-- How floats are written: never with an exponent, and always with a point. -/
def floatLayout : NumberLayout := ⟨.away, true, none, "nan"⟩

/-- The text of a float. -/
def writeFloat (x : Binary64) : String :=
  -- The sign of a NaN is written.
  (if x.isNaN && x.negative then "-" else "") ++ floatLayout.render x

/-- The largest integer that is written. -/
def maxInteger : Nat := 0x7FFFFFFFFFFFFFFF

/-- The text of a setting. -/
def writeScalar? : Scalar → Option (List Char)
  | .string s => some (writeString s)
  | .natural n => if n ≤ maxInteger then some (digitsOf n) else none
  | .float x => some (writeFloat x).toList
  | .boolean b => some (if b then "true" else "false").toList

/-- The line of a setting. -/
def writeSetting? (key : String) (setting : Scalar) : Option (List Char) :=
  (writeScalar? setting).map fun text => key.toList ++ [' ', '=', ' '] ++ text ++ ['\n']

/-- The lines of settings. -/
def writeSettings? : Settings → Option (List Char)
  | [] => some []
  | (key, setting) :: rest => do
    let line ← writeSetting? key setting
    let lines ← writeSettings? rest
    some (line ++ lines)

/-- The lines of a section, with the blank line before it. -/
def writeSection? (name : String) (settings : Settings) : Option (List Char) :=
  (writeSettings? settings).map fun lines => '\n' :: '[' :: name.toList ++ [']', '\n'] ++ lines

/-- The lines of sections. -/
def writeSections? : List (String × Settings) → Option (List Char)
  | [] => some []
  | (name, settings) :: rest => do
    let lines ← writeSection? name settings
    let more ← writeSections? rest
    some (lines ++ more)

/-- The text of a document. -/
def write? (layout : Layout) : Option String := do
  let top ← writeSettings? layout.top
  let sections ← writeSections? layout.sections
  some (String.ofList (top ++ sections))

end EvalRun.Toml
