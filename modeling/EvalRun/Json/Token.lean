import EvalRun.Json.Number

/-! # Json.Token — the tokens of a JSON text

    Reading starts by cutting the text into tokens. Cutting stops at the first
    piece that is no token, and that piece becomes a last token of its own
    which carries the fault: whether the fault counts is decided by the reader
    that meets it, since a piece that should not stand there at all is another
    fault.

    Two things are left to the reader as well:

    * A string with a surrogate escape that has no partner is a token. It is a
      fault only where the string is used, not where it is skipped.
    * A number is a literal, and may be too large only where it is used.
-/

namespace EvalRun.Json

/-- Why a text is not read. -/
inductive Fault where
  /-- Something stands where it must not. -/
  | malformed
  /-- The text ends too early. -/
  | truncated
  deriving DecidableEq, Repr

/-- A token, or the piece of text that is none. -/
inductive Token where
  | openArray
  | closeArray
  | openObject
  | closeObject
  | comma
  | colon
  | null
  | bool (b : Bool)
  | number (literal : NumberLiteral)
  /-- A string: its content, or the fault of an unpaired surrogate. -/
  | string (content : Except Fault String)
  /-- The start of a string that is not a string: the fault where it is used
      and the fault where it is skipped. -/
  | brokenString (used skipped : Fault)
  /-- A word that begins like `null` and does not go on like it. -/
  | brokenNull (fault : Fault)
  /-- Any other piece that is no token. -/
  | broken (fault : Fault)

/-! ### Strings -/

/-- The value of a hexadecimal digit. -/
def hexDigit? (c : Char) : Option Nat :=
  if '0' ≤ c && c ≤ '9' then some (c.toNat - '0'.toNat)
  else if 'a' ≤ c && c ≤ 'f' then some (c.toNat - 'a'.toNat + 10)
  else if 'A' ≤ c && c ≤ 'F' then some (c.toNat - 'A'.toNat + 10)
  else none

/-- The value of four hexadecimal digits. -/
def hexDigits4? (a b c d : Char) : Option Nat := do
  let a ← hexDigit? a
  let b ← hexDigit? b
  let c ← hexDigit? c
  let d ← hexDigit? d
  pure (((a * 16 + b) * 16 + c) * 16 + d)

/-- The character of an escape letter. -/
def escapedChar? (c : Char) : Option Char :=
  if c = '\x22' || c = '\\' || c = '/' then some c
  else if c = 'b' then some '\x08'
  else if c = 'f' then some '\x0C'
  else if c = 'n' then some '\n'
  else if c = 'r' then some '\r'
  else if c = 't' then some '\t'
  else none

/-- What the characters of a string read so far amount to. -/
structure StringScan where
  /-- The characters, in reverse. -/
  text : List Char
  /-- A leading surrogate whose partner must follow. -/
  lead : Option Nat
  /-- Set once a surrogate had no partner. -/
  unpaired : Bool

namespace StringScan

/-- Nothing read yet. -/
def start : StringScan := ⟨[], none, false⟩

/-- The scan after a character that is not a surrogate. A leading surrogate
    before it stays without partner. -/
def push (s : StringScan) (c : Char) : StringScan :=
  ⟨c :: s.text, none, s.unpaired || s.lead.isSome⟩

/-- The scan after the escape of a 16-bit unit. -/
def pushUnit (s : StringScan) (unit : Nat) : StringScan :=
  let trailing := 0xDC00 ≤ unit && unit ≤ 0xDFFF
  match s.lead with
  | some high =>
    if trailing then
      ⟨Char.ofNat (0x10000 + (high - 0xD800) * 0x400 + (unit - 0xDC00)) :: s.text, none, s.unpaired⟩
    else ⟨s.text, none, true⟩
  | none =>
    if trailing then ⟨s.text, none, true⟩
    else if 0xD800 ≤ unit && unit ≤ 0xDBFF then ⟨s.text, some unit, s.unpaired⟩
    else ⟨Char.ofNat unit :: s.text, none, s.unpaired⟩

/-- The content at the closing quote. -/
def close (s : StringScan) : Except Fault String :=
  if s.unpaired || s.lead.isSome then .error .malformed else .ok (String.ofList s.text.reverse)

/-- The token of a string that breaks off with a fault. Where the string is
    used, a surrogate without partner was noticed before. A leading surrogate
    is missing its partner only if the text goes on with something else. -/
def breakOff (s : StringScan) (fault : Fault) : Token :=
  .brokenString (if s.unpaired then .malformed else fault) fault

end StringScan

/-- Scans a string behind its opening quote: its token and what follows it. -/
def scanString (s : StringScan) : List Char → Token × List Char
  | [] => (s.breakOff .truncated, [])
  | '\\' :: 'u' :: a :: b :: c :: d :: rest =>
    match hexDigits4? a b c d with
    | some unit => scanString (s.pushUnit unit) rest
    | none => (s.breakOff .malformed, [])
  | '\\' :: 'u' :: short =>
    -- An escape takes four bytes, whether or not they are digits.
    let size := short.foldl (fun size c => size + c.utf8Size) 0
    (s.breakOff (if size < 4 then .truncated else .malformed), [])
  | '\\' :: c :: rest =>
    match escapedChar? c with
    | some escaped => scanString (s.push escaped) rest
    | none => (s.breakOff .malformed, [])
  | '\\' :: [] => (s.breakOff .truncated, [])
  | c :: rest =>
    if c = '\x22' then (.string s.close, rest)
    else if c.toNat < 0x20 then (s.breakOff .malformed, [])
    else scanString (s.push c) rest

/-! ### Numbers -/

/-- The fault of a number that goes on with no digit where one must stand. -/
def digitFault : List Char → Fault
  | [] => .truncated
  | _ => .malformed

/-- Splits off the leading digits. -/
def spanDigits (cs : List Char) : List Char × List Char :=
  (cs.takeWhile Char.isDigit, cs.dropWhile Char.isDigit)

/-- Scans the exponent of a number, if one follows. -/
def scanExponent (cs : List Char) : Except Fault (Option (Bool × List Char) × List Char) :=
  match cs with
  | [] => .ok (none, [])
  | c :: rest =>
    if c = 'e' || c = 'E' then
      let (minus, behind) := match rest with
        | '-' :: tail => (true, tail)
        | '+' :: tail => (false, tail)
        | _ => (false, rest)
      match spanDigits behind with
      | ([], tail) => .error (digitFault tail)
      | (digits, tail) => .ok (some (minus, digits), tail)
    else .ok (none, cs)

/-- Scans the fraction of a number, if one follows. -/
def scanFraction (cs : List Char) : Except Fault (List Char × List Char) :=
  match cs with
  | '.' :: rest =>
    match spanDigits rest with
    | ([], tail) => .error (digitFault tail)
    | (digits, tail) => .ok (digits, tail)
  | _ => .ok ([], cs)

/-- Scans a number behind its sign. A zero before the point stands alone. -/
def scanNumber (negative : Bool) (cs : List Char) : Token × List Char :=
  match spanDigits cs with
  | ([], tail) => (.broken (digitFault tail), [])
  | (whole, tail) =>
    if whole.head? = some '0' ∧ whole.length ≠ 1 then (.broken .malformed, [])
    else
      match scanFraction tail with
      | .error fault => (.broken fault, [])
      | .ok (fraction, tail) =>
        match scanExponent tail with
        | .error fault => (.broken fault, [])
        | .ok (exponent, tail) => (.number ⟨negative, whole, fraction, exponent⟩, tail)

/-! ### Texts -/

/-- Scans the rest of a word behind its first letter: its token, or the piece
    that it is instead. -/
def scanWord (token : Token) (broken : Fault → Token) : List Char → List Char → Token × List Char
  | [], rest => (token, rest)
  | _ :: _, [] => (broken .truncated, [])
  | w :: word, c :: rest =>
    if w = c then scanWord token broken word rest else (broken .malformed, [])

/-- The white space of JSON. -/
def isSpace (c : Char) : Bool := c = ' ' || c = '\n' || c = '\t' || c = '\r'

/-- Scans one token, given its first character and what follows. -/
def scanToken (c : Char) (rest : List Char) : Token × List Char :=
  if c = '[' then (.openArray, rest)
  else if c = ']' then (.closeArray, rest)
  else if c = '\x7b' then (.openObject, rest)
  else if c = '\x7d' then (.closeObject, rest)
  else if c = ',' then (.comma, rest)
  else if c = ':' then (.colon, rest)
  else if c = '\x22' then scanString .start rest
  else if c = '-' then scanNumber true rest
  else if c.isDigit then scanNumber false (c :: rest)
  else if c = 'n' then scanWord .null .brokenNull ['u', 'l', 'l'] rest
  else if c = 't' then scanWord (.bool true) .broken ['r', 'u', 'e'] rest
  else if c = 'f' then scanWord (.bool false) .broken ['a', 'l', 's', 'e'] rest
  else (.broken .malformed, [])

/-- The tokens of a text, taking at most `fuel` steps over characters. -/
def tokensWith : Nat → List Char → List Token
  | 0, _ => []
  | _, [] => []
  | fuel + 1, c :: rest =>
    if isSpace c then tokensWith fuel rest
    else
      let (token, tail) := scanToken c rest
      token :: tokensWith fuel tail

/-- The tokens of a text. Each step takes at least one character, so its
    length is fuel enough. -/
def tokens (cs : List Char) : List Token := tokensWith cs.length cs

end EvalRun.Json
