import EvalRun.Json.Token
import EvalRun.Json.Value

/-! # Interchange.Reader — reading typed values from JSON

    A value of a known type is read from the tokens of a text from left to
    right, and the first fault that is met is reported. So it matters what is
    looked at:

    * A token of the wrong kind is a **mismatch**, which says what was found.
    * Members without a meaning are **skipped**: they only have to be JSON.
    * A **record** is an object, or an array with its fields in their order.
    * A **choice** is a string, or an object whose only member has that name
      and the value `null`.
-/

namespace EvalRun.Interchange

open Json (Token Fault)

/-- What a JSON text has that does not fit the type. -/
inductive Mismatch where
  /-- A value of the wrong kind. -/
  | wrongKind (found : Json) (expected : String)
  /-- An integer out of range. -/
  | outOfRange (found : Json) (expected : String)
  /-- A name that is none of the choices. -/
  | unknownChoice (name : String) (choices : List String)
  /-- A field that does not occur. -/
  | missingField (name : String)
  /-- A field that occurs twice. -/
  | repeatedField (name : String)
  /-- An array with too few elements for a record. -/
  | wrongLength (length : Nat) (expected : String)
  deriving Repr

/-- A name in the quotation marks of messages. -/
def marked (name : String) : String := "`" ++ name ++ "`"

/-- Choices as a message lists them. -/
def listed : List String → String
  | [] => ""
  | [name] => marked name
  | [name, other] => marked name ++ " or " ++ marked other
  | names => "one of " ++ String.intercalate ", " (names.map marked)

/-- The text of a mismatch. -/
def Mismatch.message : Mismatch → String
  | wrongKind found expected => "invalid type: " ++ found.describe ++ ", expected " ++ expected
  | outOfRange found expected => "invalid value: " ++ found.describe ++ ", expected " ++ expected
  | unknownChoice name choices =>
    "unknown variant " ++ marked name ++ ", expected " ++ listed choices
  | missingField name => "missing field " ++ marked name
  | repeatedField name => "duplicate field " ++ marked name
  | wrongLength length expected =>
    "invalid length " ++ toString length ++ ", expected " ++ expected

/-- Why a value was not read. -/
inductive ReadError where
  /-- The text is not JSON. -/
  | text (fault : Fault)
  /-- The text does not fit the type. -/
  | mismatch (m : Mismatch)
  deriving Repr

/-- Reads a value from tokens and leaves the rest of them. -/
abbrev Reader := StateT (List Token) (Except ReadError)

/-! ### Tokens -/

/-- The fault of tokens that do not begin with what was expected. -/
def misplaced (expected : String) : List Token → ReadError
  | [] => .text .truncated
  | .null :: _ => .mismatch (.wrongKind .null expected)
  | .bool b :: _ => .mismatch (.wrongKind (.bool b) expected)
  | .number literal :: _ =>
    match literal.number? with
    | some n => .mismatch (.wrongKind (.number n) expected)
    | none => .text .malformed
  | .string (.ok s) :: _ => .mismatch (.wrongKind (.string s) expected)
  | .string (.error fault) :: _ => .text fault
  | .brokenString used _ :: _ => .text used
  | .brokenNull fault :: _ => .text fault
  | .broken fault :: _ => .text fault
  | .openArray :: _ => .mismatch (.wrongKind (.array []) expected)
  | .openObject :: _ => .mismatch (.wrongKind (.object []) expected)
  | _ => .text .malformed

/-- The fault of tokens where only punctuation is looked for. -/
def unpunctuated : List Token → ReadError
  | [] => .text .truncated
  | _ => .text .malformed

/-- Fails. -/
def fail {α : Type} (m : Mismatch) : Reader α := fun _ => .error (.mismatch m)

/-- Reads a comma. -/
def comma : Reader Unit
  | .comma :: rest => .ok ((), rest)
  | tokens => .error (unpunctuated tokens)

/-- Reads a colon. -/
def colon : Reader Unit
  | .colon :: rest => .ok ((), rest)
  | tokens => .error (unpunctuated tokens)

/-- Reads the end of an array. -/
def closeArray : Reader Unit
  | .closeArray :: rest => .ok ((), rest)
  | tokens => .error (unpunctuated tokens)

/-- Reads the end of an object. -/
def closeObject : Reader Unit
  | .closeObject :: rest => .ok ((), rest)
  | tokens => .error (unpunctuated tokens)

/-- Reads the end of an array if it is there. -/
def closesArray : Reader Bool
  | .closeArray :: rest => .ok (true, rest)
  | tokens => .ok (false, tokens)

/-- Reads the end of an object if it is there. -/
def closesObject : Reader Bool
  | .closeObject :: rest => .ok (true, rest)
  | tokens => .ok (false, tokens)

/-- Reads the name of a member. -/
def memberName : Reader String
  | .string (.ok s) :: rest => .ok (s, rest)
  | .string (.error fault) :: _ => .error (.text fault)
  | .brokenString used _ :: _ => .error (.text used)
  | tokens => .error (unpunctuated tokens)

/-! ### Skipping -/

/-- What may come next where a value is skipped. -/
inductive Skip where
  /-- A value. -/
  | value
  /-- The first element or member, or the end of what was opened last. -/
  | first
  /-- A name. -/
  | name
  /-- The colon behind a name. -/
  | colon
  /-- A comma, or the end of what was opened last. -/
  | behind

/-- Skips the rest of a value. The stack says of everything that is open
    whether it is an object. -/
def skipFrom : Skip → List Bool → List Token → Except Fault (List Token)
  | _, _, [] => .error .truncated
  | .first, false :: stack, .closeArray :: rest =>
    if stack.isEmpty then .ok rest else skipFrom .behind stack rest
  | .first, true :: stack, .closeObject :: rest =>
    if stack.isEmpty then .ok rest else skipFrom .behind stack rest
  | .behind, false :: stack, .closeArray :: rest =>
    if stack.isEmpty then .ok rest else skipFrom .behind stack rest
  | .behind, true :: stack, .closeObject :: rest =>
    if stack.isEmpty then .ok rest else skipFrom .behind stack rest
  | .behind, isObject :: stack, .comma :: rest =>
    skipFrom (if isObject then .name else .value) (isObject :: stack) rest
  | .behind, _, _ :: _ => .error .malformed
  | .colon, stack, .colon :: rest => skipFrom .value stack rest
  | .colon, _, _ :: _ => .error .malformed
  | .name, stack, token :: rest => skipName stack token rest
  | .first, true :: stack, token :: rest => skipName (true :: stack) token rest
  | _, stack, token :: rest =>
    match token with
    | .openArray => skipFrom .first (false :: stack) rest
    | .openObject => skipFrom .first (true :: stack) rest
    | .null | .bool _ | .number _ | .string _ =>
      if stack.isEmpty then .ok rest else skipFrom .behind stack rest
    | .brokenString _ skipped => .error skipped
    | .brokenNull fault => .error fault
    | .broken fault => .error fault
    | _ => .error .malformed
where
  /-- Skips the name of a member, and what follows it. -/
  skipName (stack : List Bool) (token : Token) (rest : List Token) : Except Fault (List Token) :=
    match token with
    | .string _ => skipFrom .colon stack rest
    | .brokenString _ skipped => .error skipped
    | _ => .error .malformed

/-- Skips a value. -/
def skipValue : Reader Unit := fun tokens =>
  match skipFrom .value [] tokens with
  | .ok rest => .ok ((), rest)
  | .error fault => .error (.text fault)

/-! ### Plain values -/

/-- Reads a string. -/
def string (expected : String) : Reader String
  | .string (.ok s) :: rest => .ok (s, rest)
  | tokens => .error (misplaced expected tokens)

/-- Reads a text. -/
def text : Reader String := string "a string"

/-- Reads a path. -/
def path : Reader String := string "path string"

/-- Reads a boolean. -/
def boolean : Reader Bool
  | .bool b :: rest => .ok (b, rest)
  | tokens => .error (misplaced "a boolean" tokens)

/-- Reads the value `null`. -/
def unit : Reader Unit
  | .null :: rest => .ok ((), rest)
  | tokens => .error (misplaced "unit" tokens)

/-- Reads a natural number of so many bits. -/
def natural (bits : Nat) (expected : String) : Reader Nat := fun tokens =>
  match tokens with
  | .number literal :: rest =>
    match literal.number? with
    | some (.natural n) =>
      if n < Nat.pow 2 bits then .ok (n, rest)
      else .error (.mismatch (.outOfRange (.number (.natural n)) expected))
    | some (.negative n) => .error (.mismatch (.outOfRange (.number (.negative n)) expected))
    | _ => .error (misplaced expected tokens)
  | _ => .error (misplaced expected tokens)

/-- Reads a count. -/
def size : Reader Nat := natural 64 "usize"

/-- Reads a number of 64 bits. -/
def word : Reader Nat := natural 64 "u64"

/-- Reads a double. -/
def double : Reader Binary64 := fun tokens =>
  match tokens with
  | .number literal :: rest =>
    match literal.number? with
    | some n => .ok (n.toBinary64, rest)
    | none => .error (.text .malformed)
  | _ => .error (misplaced "f64" tokens)

/-- Reads a value that may be missing. -/
def optional {α : Type} (read : Reader α) : Reader (Option α) := fun tokens =>
  match tokens with
  | .null :: rest => .ok (none, rest)
  | .brokenNull fault :: _ => .error (.text fault)
  | _ => (read tokens).map fun (a, rest) => (some a, rest)

/-! ### Arrays, choices and records -/

/-- Reads the elements of an array, the first of them without a comma before
    it. Each takes at least one token, of which there are at most `fuel`. -/
def elements {α : Type} (read : Reader α) (first : Bool) : Nat → Reader (List α)
  | 0 => return []
  | fuel + 1 => do
    if ← closesArray then return []
    unless first do comma
    let a ← read
    return a :: (← elements read false fuel)

/-- Reads an array. -/
def array {α : Type} (read : Reader α) : Reader (List α)
  | .openArray :: rest => elements read true (rest.length + 1) rest
  | tokens => .error (misplaced "a sequence" tokens)

/-- The choice of the given name. -/
def chosen {α : Type} (choices : List (String × α)) (name : String) : Reader α :=
  match choices.lookup name with
  | some a => return a
  | none => fail (.unknownChoice name (choices.map (·.1)))

/-- Reads the only member of an object: a choice with nothing to it. -/
def choiceMember {α : Type} (choices : List (String × α)) : Reader α := do
  let a ← chosen choices (← string "variant identifier")
  colon
  unit
  closeObject
  return a

/-- Reads one of some choices. -/
def choice {α : Type} (choices : List (String × α)) : Reader α
  | .openObject :: rest => choiceMember choices rest
  | .string (.ok name) :: rest => chosen choices name rest
  | .string (.error fault) :: _ => .error (.text fault)
  | .brokenString used _ :: _ => .error (.text used)
  | tokens => .error (unpunctuated tokens)

/-- A field of a record: its name, and how it is read into the record. -/
structure Field (α : Type) where
  name : String
  read : α → Reader α

/-- How records of a type are read. -/
structure Record (α : Type) where
  /-- The name of the type in messages. -/
  name : String
  /-- The record before any field is read. -/
  blank : α
  /-- Every field has to occur. -/
  required : Bool
  /-- The fields in their order. -/
  fields : List (Field α)

namespace Record

variable {α : Type}

/-- A record at its end, with the names of the fields that occurred. -/
def finish (r : Record α) (seen : List String) (a : α) : Reader α :=
  match r.fields.find? fun f => r.required && !seen.contains f.name with
  | some f => fail (.missingField f.name)
  | none => return a

/-- Reads the members of an object, the first of them without a comma before
    it. Each takes at least one token, of which there are at most `fuel`. -/
def members (r : Record α) (first : Bool) (seen : List String) (a : α) : Nat → Reader α
  | 0 => return a
  | fuel + 1 => do
    if ← closesObject then r.finish seen a
    else
      unless first do comma
      let name ← memberName
      match r.fields.find? fun f => f.name = name with
      | none =>
        colon
        skipValue
        r.members false seen a fuel
      | some f =>
        if seen.contains name then fail (.repeatedField name)
        else
          colon
          r.members false (name :: seen) (← f.read a) fuel

/-- Reads the elements of an array into the fields from the given one on. -/
def items (r : Record α) (index : Nat) (a : α) : List (Field α) → Reader α
  | [] => do
    closeArray
    return a
  | f :: fields => do
    if ← closesArray then
      if r.required then
        fail (.wrongLength index
          ("struct " ++ r.name ++ " with " ++ toString r.fields.length ++ " elements"))
      else return a
    else
      unless index = 0 do comma
      r.items (index + 1) (← f.read a) fields

/-- Reads a record. -/
def read (r : Record α) : Reader α
  | .openObject :: rest => r.members true [] r.blank (rest.length + 1) rest
  | .openArray :: rest => r.items 0 r.blank r.fields rest
  | tokens => .error (misplaced ("struct " ++ r.name) tokens)

end Record

/-- Reads a whole text. -/
def Reader.readText {α : Type} (read : Reader α) (s : String) : Except ReadError α :=
  match read (Json.tokens s.toList) with
  | .error e => .error e
  | .ok (a, []) => .ok a
  | .ok (_, _ :: _) => .error (.text .malformed)

end EvalRun.Interchange
