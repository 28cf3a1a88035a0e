import EvalRun.Json.Value
import EvalRun.Query

/-! # Response.Shape — the two shapes of a search response

    A backend answers in one of two shapes, which differ in where the hits
    stand and in the names of their members:

    * **flat**: member `hits` is the array of hits, each with `id` and `score`;
    * **nested**: member `hits` is an object whose own member `hits` is that
      array, each hit with `_id` and `_score`.

    A hit may also be an array of its id and its score. Members with other
    names are ignored, and so is everything around the hits.
-/

namespace EvalRun.Response

/-- A shape that responses come in. -/
inductive Shape where
  | flat
  | nested
  deriving DecidableEq, Repr

/-- Why one hit of a response is unusable. -/
inductive HitFault where
  /-- The hit has no member of this name. -/
  | missingMember (name : String)
  /-- The id is neither a string nor a number. -/
  | badId
  /-- The score is not a number. -/
  | badScore (found : Json)
  /-- The hit is neither an object nor an array. -/
  | notAHit (shape : Shape) (found : Json)
  /-- The hit is an array with fewer than two elements. -/
  | tooShort (shape : Shape) (length : Nat)
  /-- The hit is an array with more than two elements. -/
  | tooLong (length : Nat)
  deriving Repr

/-- Why a response is not decoded. -/
inductive DecodeError where
  /-- The body is not JSON. -/
  | invalidJson
  /-- The hit at this index is unusable. -/
  | invalidHit (shape : Shape) (index : Nat) (fault : HitFault)
  deriving Repr

namespace Shape

/-- The name of a shape. -/
def name : Shape → String
  | flat => "flat"
  | nested => "nested"

/-- The member that holds the id of a hit. -/
def idMember : Shape → String
  | flat => "id"
  | nested => "_id"

/-- The member that holds the score of a hit. -/
def scoreMember : Shape → String
  | flat => "score"
  | nested => "_score"

/-- What a message calls a hit of this shape. -/
def hitName : Shape → String
  | flat => "struct FlatHit"
  | nested => "struct NestedHit"

/-! ### Hits -/

/-- The document id that a value denotes. Numbers are written out. -/
def docId : Json → Except HitFault String
  | .string s => .ok s
  | .number n => .ok n.text
  | _ => .error .badId

/-- The score that a value denotes. -/
def score : Json → Except HitFault Binary64
  | .number n => .ok n.toBinary64
  | found => .error (.badScore found)

/-- Reads the members of a hit in their order, given the id and the score
    found so far. The first unusable one is the fault; that one is missing is
    noticed at the end, and the id first. -/
def readMembers (shape : Shape) (id? : Option String) (score? : Option Binary64) :
    List (String × Json) → Except HitFault Hit
  | [] =>
    match id?, score? with
    | some id, some score => .ok ⟨id, score⟩
    | none, _ => .error (.missingMember shape.idMember)
    | some _, none => .error (.missingMember shape.scoreMember)
  | (name, value) :: rest =>
    if name = shape.idMember then do
      let id ← docId value
      readMembers shape (some id) score? rest
    else if name = shape.scoreMember then do
      let score ← score value
      readMembers shape id? (some score) rest
    else readMembers shape id? score? rest

/-- Reads one hit. -/
def readHit (shape : Shape) : Json → Except HitFault Hit
  | .object members => readMembers shape none none members
  | .array [] => .error (.tooShort shape 0)
  | .array [id] => do
    let _ ← docId id
    .error (.tooShort shape 1)
  | .array (id :: value :: rest) => do
    let id ← docId id
    let score ← score value
    if rest.isEmpty then .ok ⟨id, score⟩ else .error (.tooLong (rest.length + 2))
  | found => .error (.notAHit shape found)

/-- Reads the hits of an array from the given index on, up to the first
    unusable one. -/
def readHitsFrom (shape : Shape) (index : Nat) : List Json → Except DecodeError (List Hit)
  | [] => .ok []
  | entry :: rest =>
    match shape.readHit entry with
    | .error fault => .error (.invalidHit shape index fault)
    | .ok hit => (shape.readHitsFrom (index + 1) rest).map (hit :: ·)

/-- Reads the hits of an array. -/
def readHits (shape : Shape) (entries : List Json) : Except DecodeError (List Hit) :=
  shape.readHitsFrom 0 entries

/-! ### Payloads -/

/-- The payload has its hits where this shape has them. -/
def claims (shape : Shape) (payload : Json) : Bool :=
  match shape, payload.member? "hits" with
  | flat, some (.array _) => true
  | nested, some (.object _) => true
  | _, _ => false

/-- The array of hits, where the payload has one in the place of this shape. -/
def entries? (shape : Shape) (payload : Json) : Option (List Json) :=
  let place := match shape with
    | flat => payload.member? "hits"
    | nested => (payload.member? "hits").bind (Json.member? "hits")
  match place with
  | some (.array entries) => some entries
  | _ => none

/-- Decodes a payload in this shape. Without an array of hits there are none. -/
def decode (shape : Shape) (payload : Json) : Except DecodeError (List Hit) :=
  match shape.entries? payload with
  | some entries => shape.readHits entries
  | none => .ok []

end Shape

/-! ### Messages -/

/-- The text of an unusable hit. -/
def HitFault.message : HitFault → String
  | missingMember name => "missing field `" ++ name ++ "`"
  | badId => "data did not match any variant of untagged enum DocIdRepr"
  | badScore found => "invalid type: " ++ found.describe ++ ", expected f64"
  | notAHit shape found => "invalid type: " ++ found.describe ++ ", expected " ++ shape.hitName
  | tooShort shape length =>
    "invalid length " ++ toString length ++ ", expected " ++ shape.hitName ++ " with 2 elements"
  | tooLong length =>
    "invalid length " ++ toString length ++ ", expected fewer elements in array"

/-- The text of a response that is not decoded. -/
def DecodeError.message : DecodeError → String
  | invalidJson => "invalid JSON"
  | invalidHit shape index fault =>
    "invalid hit at index " ++ toString index ++ " (" ++ shape.name ++ " shape): " ++ fault.message

end EvalRun.Response
