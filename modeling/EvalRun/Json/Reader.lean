import EvalRun.Json.Token
import EvalRun.Json.Value

/-! # Json.Reader — reading a JSON text

    A stack machine reads the tokens from left to right. The stack holds the
    arrays and objects that are still open, and the state says what may come
    next. A text may nest 127 arrays and objects; of equal names in one object
    the last stands.
-/

namespace EvalRun.Json

/-- The number of arrays and objects that may be open at one time. -/
def maxNesting : Nat := 127

/-- An array or object that is still open. -/
inductive Frame where
  /-- An array with its elements so far, in reverse. -/
  | array (items : List Json)
  /-- An object with its members so far, and the name whose value comes next. -/
  | member (members : List (String × Json)) (name : String)

/-- What may come next. -/
inductive Expect where
  /-- A value. -/
  | value
  /-- A value, or the end of an array that has no elements. -/
  | valueOrClose
  /-- A name of an object with these members; its end may come too if the
      flag is set. -/
  | name (members : List (String × Json)) (mayClose : Bool)
  /-- The colon behind a name. -/
  | colon
  /-- What follows a value that is complete. -/
  | behind (v : Json)

/-- The state behind a token: what may come next and what is still open. -/
abbrev ReadState := Expect × List Frame

/-- One token where a value is expected. -/
def stepValue (stack : List Frame) : Token → Except Fault ReadState
  | .null => .ok (.behind .null, stack)
  | .bool b => .ok (.behind (.bool b), stack)
  | .number literal =>
    match literal.number? with
    | some n => .ok (.behind (.number n), stack)
    | none => .error .malformed
  | .string content => content.map fun s => (.behind (.string s), stack)
  | .openArray =>
    if stack.length < maxNesting then .ok (.valueOrClose, .array [] :: stack)
    else .error .malformed
  | .openObject =>
    if stack.length < maxNesting then .ok (.name [] true, stack) else .error .malformed
  | .brokenString used _ => .error used
  | .brokenNull fault => .error fault
  | .broken fault => .error fault
  | _ => .error .malformed

/-- One token behind a complete value. -/
def stepBehind (v : Json) : List Frame → Token → Except Fault ReadState
  | .array items :: stack, .comma => .ok (.value, .array (v :: items) :: stack)
  | .array items :: stack, .closeArray => .ok (.behind (.array (v :: items).reverse), stack)
  | .member members name :: stack, .comma => .ok (.name (insertMember name v members) false, stack)
  | .member members name :: stack, .closeObject =>
    .ok (.behind (.object (insertMember name v members)), stack)
  | _, _ => .error .malformed

/-- One token. -/
def step : ReadState → Token → Except Fault ReadState
  | (.value, stack), token => stepValue stack token
  | (.valueOrClose, stack), token =>
    match stack, token with
    | .array _ :: stack, .closeArray => .ok (.behind (.array []), stack)
    | _, _ => stepValue stack token
  | (.name members mayClose, stack), token =>
    match token with
    | .string content => content.map fun s => (.colon, .member members s :: stack)
    | .brokenString used _ => .error used
    | .closeObject => if mayClose then .ok (.behind (.object members), stack) else .error .malformed
    | _ => .error .malformed
  | (.colon, stack), token =>
    match token with
    | .colon => .ok (.value, stack)
    | _ => .error .malformed
  | (.behind v, stack), token => stepBehind v stack token

/-- Reads the tokens from a state on. The text is complete behind a value with
    nothing open. -/
def readFrom : ReadState → List Token → Except Fault Json
  | (.behind v, []), [] => .ok v
  | _, [] => .error .truncated
  | state, token :: rest =>
    match step state token with
    | .ok next => readFrom next rest
    | .error fault => .error fault

/-- Reads a JSON text. -/
def parse (s : String) : Except Fault Json := readFrom (.value, []) (tokens s.toList)

end EvalRun.Json
