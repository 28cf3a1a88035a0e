import EvalRun.Json.Number
import EvalRun.Text.Quoted

/-! # Json.Value — values of JSON

    A value is what one JSON text denotes. The members of an object stand in
    ascending order of their names, and each name stands once: `insertMember`
    is the only way in which reading builds them.
-/

namespace EvalRun

/-- A JSON value. -/
inductive Json where
  /-- The value `null`. -/
  | null
  /-- A boolean. -/
  | bool (b : Bool)
  /-- A number. -/
  | number (n : Json.Number)
  /-- A string. -/
  | string (s : String)
  /-- An array with its elements in order. -/
  | array (items : List Json)
  /-- An object with its members in ascending order of their names. -/
  | object (members : List (String × Json))
  deriving Repr, Inhabited

namespace Json

/-- The members with one more, in its place. A member of the same name is
    replaced. -/
def insertMember (name : String) (value : Json) :
    List (String × Json) → List (String × Json)
  | [] => [(name, value)]
  | (other, old) :: rest =>
    if name = other then (name, value) :: rest
    else if name < other then (name, value) :: (other, old) :: rest
    else (other, old) :: insertMember name value rest

/-- The member of the given name. Only objects have members. -/
def member? (name : String) : Json → Option Json
  | .object members => members.lookup name
  | _ => none

/-- What a message calls a value that stands where another kind was expected. -/
def describe : Json → String
  | .null => "null"
  | .bool b => "boolean `" ++ (if b then "true" else "false") ++ "`"
  | .number (.float x) => "floating point `" ++ numberLayout.render x ++ "`"
  | .number n => "integer `" ++ n.text ++ "`"
  | .string s => "string " ++ Text.quoted s
  | .array _ => "sequence"
  | .object _ => "map"

end Json

end EvalRun
