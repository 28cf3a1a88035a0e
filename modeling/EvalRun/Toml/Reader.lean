import EvalRun.Binary64.Decimal
import EvalRun.Toml.Text

/-! # Toml.Reader — reading a TOML document

    A document is read line by line into statements, which are then assembled
    into its table. Values follow TOML 1.0: integers have 64 bits, a float is
    the double nearest to what is written, and arrays and inline tables nest
    to a limited depth.
-/

namespace EvalRun.Toml

/-! ### Numbers -/

/-- Reads digits, where an underscore may stand between two of them. -/
def digitRun? (isDigit : Char → Bool) : List Char → List Char × List Char
  | [] => ([], [])
  | c :: rest =>
    if isDigit c then
      let (tail, behind) := digitRun? isDigit rest
      (c :: tail, behind)
    else ([], c :: rest)

/-- Reads a run of digits with single underscores between them: at least one
    digit, and no underscore at either end. -/
def digits? (isDigit : Char → Bool) : Nat → List Char → Option (List Char × List Char)
  | 0, _ => none
  | fuel + 1, cs =>
    match digitRun? isDigit cs with
    | ([], _) => none
    | (run, '_' :: rest) => (digits? isDigit fuel rest).map fun (tail, rest) => (run ++ tail, rest)
    | (run, rest) => some (run, rest)

/-- Reads a sign, if one stands here: whether it is a minus. -/
def sign (cs : List Char) : Bool × List Char :=
  match cs with
  | '-' :: rest => (true, rest)
  | '+' :: rest => (false, rest)
  | _ => (false, cs)

/-- Reads the digits of a whole number. A zero at the front stands alone. -/
def whole? (cs : List Char) : Option (List Char × List Char) :=
  match cs with
  | '0' :: rest => some (['0'], rest)
  | _ => digits? Char.isDigit (cs.length + 1) cs

/-- The integers of 64 bits. -/
def inInt64 (n : Int) : Bool := -0x8000000000000000 ≤ n && n < 0x8000000000000000

/-- The value of digits of a base up to sixteen. -/
def valueOfDigits (base : Nat) (digits : List Char) : Nat :=
  digits.foldl (fun n c => n * base + (hexValue? c).getD 0) 0

/-- Reads an integer of a base that is named behind a zero. -/
def basedInteger? (base : Nat) (cs : List Char) : Option (Value × List Char) := do
  let isDigit := fun c => match hexValue? c with
    | some v => decide (v < base)
    | none => false
  let (digits, rest) ← digits? isDigit (cs.length + 1) cs
  let n := valueOfDigits base digits
  if inInt64 n then some (.integer n, rest) else none

/-- Reads an integer. -/
def integer? (cs : List Char) : Option (Value × List Char) :=
  match cs with
  | '0' :: 'x' :: rest => basedInteger? 16 rest
  | '0' :: 'o' :: rest => basedInteger? 8 rest
  | '0' :: 'b' :: rest => basedInteger? 2 rest
  | _ => do
    let (minus, rest) := sign cs
    let (digits, rest) ← whole? rest
    let n : Int := readDigits 0 digits
    let n := if minus then -n else n
    if inInt64 n then some (.integer n, rest) else none

/-- Reads the fraction of a float, if one stands here. -/
def fraction? (cs : List Char) : Option (List Char × List Char) :=
  match cs with
  | '.' :: rest => digits? Char.isDigit (rest.length + 1) rest
  | _ => some ([], cs)

/-- Reads the exponent of a float, if one stands here. -/
def exponent? (cs : List Char) : Option (Option Int × List Char) :=
  match cs with
  | [] => some (none, [])
  | c :: rest =>
    if c = 'e' || c = 'E' then do
      let (minus, rest) := sign rest
      let (digits, rest) ← digits? Char.isDigit (rest.length + 1) rest
      let n : Int := readDigits 0 digits
      some (some (if minus then -n else n), rest)
    else some (none, cs)

/-- Reads a float with digits: it has a fraction or an exponent, or both.
    One too large above is refused. -/
def digitFloat? (cs : List Char) : Option (Value × List Char) := do
  let (minus, rest) := sign cs
  let (whole, rest) ← whole? rest
  let (fraction, rest) ← fraction? rest
  let (exponent, rest) ← exponent? rest
  if fraction.isEmpty && exponent.isNone then none
  else
    let x := Binary64.ofDecimal minus
      ⟨readDigits 0 (whole ++ fraction), exponent.getD 0 - fraction.length⟩
    if x = Binary64.signedInfinity false then none else some (.float x, rest)

/-- Reads an infinity or a NaN. -/
def specialFloat? (cs : List Char) : Option (Value × List Char) :=
  let (minus, rest) := sign cs
  match rest with
  | 'i' :: 'n' :: 'f' :: rest => some (.float (.signedInfinity minus), rest)
  | 'n' :: 'a' :: 'n' :: rest => some (.float (.quietNaN minus), rest)
  | _ => none

/-! ### Dates and times -/

/-- Reads a number of exactly `count` digits within bounds. -/
def fixedNumber? (count low high : Nat) (cs : List Char) : Option (Nat × List Char) :=
  let digits := cs.take count
  let n := readDigits 0 digits
  if digits.length = count && digits.all Char.isDigit && low ≤ n && n ≤ high then
    some (n, cs.drop count)
  else none

/-- Reads one character. -/
def one? (c : Char) : List Char → Option (List Char)
  | d :: rest => if c = d then some rest else none
  | [] => none

/-- The number of days of a month. -/
def daysInMonth (year month : Nat) : Nat :=
  if month = 2 then
    if year % 4 = 0 ∧ (year % 100 ≠ 0 ∨ year % 400 = 0) then 29 else 28
  else if month = 4 ∨ month = 6 ∨ month = 9 ∨ month = 11 then 30
  else 31

/-- Reads a date. -/
def date? (cs : List Char) : Option (List Char) := do
  let (year, rest) ← fixedNumber? 4 0 9999 cs
  let rest ← one? '-' rest
  let (month, rest) ← fixedNumber? 2 1 12 rest
  let rest ← one? '-' rest
  let (_, rest) ← fixedNumber? 2 1 (daysInMonth year month) rest
  some rest

/-- Reads a time of day. -/
def time? (cs : List Char) : Option (List Char) := do
  let (_, rest) ← fixedNumber? 2 0 23 cs
  let rest ← one? ':' rest
  let (_, rest) ← fixedNumber? 2 0 59 rest
  let rest ← one? ':' rest
  let (_, rest) ← fixedNumber? 2 0 60 rest
  match rest with
  | '.' :: digits =>
    if (digits.takeWhile Char.isDigit).isEmpty then none else some (digits.dropWhile Char.isDigit)
  | _ => some rest

/-- Reads the distance of a time from universal time, if one stands here. -/
def timeOffset? (cs : List Char) : Option (List Char) :=
  match cs with
  | 'Z' :: rest => some rest
  | 'z' :: rest => some rest
  | c :: rest =>
    if c = '+' || c = '-' then do
      let (_, rest) ← fixedNumber? 2 0 23 rest
      let rest ← one? ':' rest
      let (_, rest) ← fixedNumber? 2 0 59 rest
      some rest
    else some cs
  | [] => some cs

/-- Reads the time behind a date, if one stands here. -/
def timeBehindDate? (cs : List Char) : Option (List Char) :=
  match cs with
  | c :: rest =>
    if c = 'T' || c = 't' || c = ' ' then
      match time? rest with
      | some behind => timeOffset? behind
      | none => some cs
    else some cs
  | [] => some cs

/-- Reads a date, a time, or both. -/
def datetime? (cs : List Char) : Option (Value × List Char) :=
  match date? cs with
  | some rest => (timeBehindDate? rest).map (.datetime, ·)
  | none => (time? cs).map (.datetime, ·)

/-- Reads a value that begins with a sign or a digit. -/
def number? (cs : List Char) : Option (Value × List Char) :=
  datetime? cs <|> digitFloat? cs <|> specialFloat? cs <|> integer? cs

/-! ### Values -/

/-- Reads what stands between the brackets of an array, and the closing one.
    A comma may stand behind the last element. -/
def elements? (value? : List Char → Option (Value × List Char)) :
    Nat → List Char → Option (List Value × List Char)
  | 0, _ => none
  | fuel + 1, cs => do
    let cs ← skipLines cs.length cs
    match cs with
    | ']' :: rest => some ([], rest)
    | _ =>
      let (v, rest) ← value? cs
      let rest ← skipLines rest.length rest
      match rest with
      | ',' :: rest => do
        let (vs, rest) ← elements? value? fuel rest
        some (v :: vs, rest)
      | ']' :: rest => some ([v], rest)
      | _ => none

/-- Reads the assignments of an inline table, of which there is at least one,
    and the closing brace. -/
def inlineEntries? (value? : List Char → Option (Value × List Char)) :
    Nat → Entries → List Char → Option (Entries × List Char)
  | 0, _, _ => none
  | fuel + 1, entries, cs => do
    let ((path, key), rest) ← key? cs
    match rest with
    | '=' :: rest => do
      let (v, rest) ← value? (skipBlanks rest)
      let entries ← assign path key v .inline entries
      match skipBlanks rest with
      | ',' :: rest => inlineEntries? value? fuel entries rest
      | '\x7d' :: rest => some (entries, rest)
      | _ => none
    | _ => none

/-- Reads a word. -/
def word? (word : List Char) (v : Value) (cs : List Char) : Option (Value × List Char) :=
  if word.isPrefixOf cs then some (v, cs.drop word.length) else none

/-- Reads a value in which arrays and inline tables nest to the given depth. -/
def valueAt? : Nat → List Char → Option (Value × List Char)
  | depth, cs =>
    match cs with
    | [] => none
    | c :: rest =>
      if c = '\x22' || c = '\x27' then
        (string? cs).map fun (s, rest) => (.string (String.ofList s), rest)
      else if c = '[' then
        match depth with
        | 0 => none
        | depth + 1 =>
          (elements? (valueAt? depth) (rest.length + 1) rest).map fun (vs, rest) =>
            (.array vs, rest)
      else if c = '\x7b' then
        match depth with
        | 0 => none
        | depth + 1 =>
          match skipBlanks rest with
          | '\x7d' :: rest => some (.table .inline [], rest)
          | behind =>
            (inlineEntries? (valueAt? depth) (behind.length + 1) [] behind).map
              fun (entries, rest) => (.table .inline entries, rest)
      else if c = '+' || c = '-' || c.isDigit then number? cs
      else if c = 't' then word? ['t', 'r', 'u', 'e'] (.boolean true) cs
      else if c = 'f' then word? ['f', 'a', 'l', 's', 'e'] (.boolean false) cs
      else if c = 'i' || c = 'n' then specialFloat? cs
      else none

/-- How deep arrays and inline tables nest at most. -/
def maxNesting : Nat := 79

/-- Reads a value. -/
def value? (cs : List Char) : Option (Value × List Char) := valueAt? maxNesting cs

/-! ### Documents -/

/-- Reads a header behind its brackets, and the brackets that close it. -/
def header? (closing : List Char) (cs : List Char) :
    Option ((List String × String) × List Char) := do
  let (k, rest) ← key? cs
  if closing.isPrefixOf rest then some (k, rest.drop closing.length) else none

/-- Reads one statement. -/
def statement? (cs : List Char) : Option (Statement × List Char) :=
  match cs with
  | '[' :: '[' :: rest =>
    (header? [']', ']'] rest).map fun ((path, key), rest) => (.elementHeader path key, rest)
  | '[' :: rest => (header? [']'] rest).map fun ((path, key), rest) => (.header path key, rest)
  | _ => do
    let ((path, key), rest) ← key? cs
    match rest with
    | '=' :: rest => do
      let (v, rest) ← value? (skipBlanks rest)
      some (.assignment path key v, rest)
    | _ => none

/-- Reads the statements of a document, each on a line of its own. -/
def statements? : Nat → List Char → Option (List Statement)
  | 0, _ => none
  | fuel + 1, cs =>
    match skipBlanks cs with
    | [] => some []
    | c :: rest =>
      if c = '#' || c = '\n' || c = '\r' then (endOfLine? (c :: rest)).bind (statements? fuel)
      else do
        let (s, rest) ← statement? (c :: rest)
        let rest ← endOfLine? rest
        let more ← statements? fuel rest
        some (s :: more)

/-- The characters behind a byte order mark. -/
def skipMark : List Char → List Char
  | '\uFEFF' :: rest => rest
  | cs => cs

/-- Reads a document: its table, or nothing if it is not TOML. -/
def parse (text : String) : Option Entries :=
  let cs := skipMark text.toList
  (statements? (cs.length + 1) cs).bind assemble

end EvalRun.Toml
