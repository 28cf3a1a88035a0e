import EvalRun.Backend
import EvalRun.Text.Duration
import EvalRun.Text.Quoted

/-! # Http.Endpoint — the search service and the forms sent to it

    Every request is one form with four fields: the keywords, the formula, and
    the page of results that is asked for. A form is text of few characters:
    every byte outside them is written with two hexadecimal digits, and a
    blank as a plus sign.
-/

namespace EvalRun.Http

/-- A search service and the page of results that is asked for. -/
structure Endpoint where
  /-- The address of the service. -/
  url : String
  /-- The number of results before the page. -/
  pageStart : Nat
  /-- The number of results on the page. -/
  pageSize : Nat
  /-- The milliseconds that one exchange may take; without it there is no
      limit. -/
  timeoutMs? : Option Nat
  deriving DecidableEq, Repr

namespace Endpoint

/-- The address used when nothing else is configured. -/
def defaultUrl : String := "http://localhost:8889/"

/-- The page start used when nothing else is configured. -/
def defaultPageStart : Nat := 0

/-- The page size used when nothing else is configured. -/
def defaultPageSize : Nat := 100

/-- The service used when nothing else is configured. -/
def default : Endpoint := ⟨defaultUrl, defaultPageStart, defaultPageSize, none⟩

/-- The name of this kind of backend. -/
def backendName : String := "http"

/-- The fields of the form of a request. -/
def formFields (e : Endpoint) (v : QueryVariant) : List (String × String) :=
  [("text", v.keywords), ("math", v.formula), ("from", toString e.pageStart),
    ("size", toString e.pageSize)]

/-- How the limit of an exchange is shown. -/
def describeTimeout : Option Nat → String
  | none => "None"
  | some ms => "Some(" ++ Text.duration ms ++ ")"

/-- How a service is shown. -/
def describe (e : Endpoint) : String :=
  "HttpBackend \x7b url: " ++ Text.quoted e.url ++ ", from: " ++ toString e.pageStart
    ++ ", size: " ++ toString e.pageSize ++ ", timeout: " ++ describeTimeout e.timeoutMs?
    ++ " \x7d"

end Endpoint

/-! ### Forms -/

/-- A byte that stands for itself in a form. -/
def standsForItself (byte : UInt8) : Bool :=
  let c := Char.ofNat byte.toNat
  byte < 0x80 && (c.isAlphanum || "-_.~!*()".toList.contains c)

/-- A hexadecimal digit in capital letters. -/
def hexDigit (n : Nat) : Char :=
  if n < 10 then Char.ofNat ('0'.toNat + n) else Char.ofNat ('A'.toNat + n - 10)

/-- A byte as it is written in a form. -/
def encodeByte (byte : UInt8) : List Char :=
  if byte = 0x20 then ['+']
  else if standsForItself byte then [Char.ofNat byte.toNat]
  else ['%', hexDigit (byte.toNat / 16), hexDigit (byte.toNat % 16)]

/-- A name or value as it is written in a form. -/
def encodeText (text : String) : String :=
  String.ofList (text.toUTF8.toList.flatMap encodeByte)

/-- The text of a form. -/
def formBody (fields : List (String × String)) : String :=
  String.intercalate "&"
    (fields.map fun (name, value) => encodeText name ++ "=" ++ encodeText value)

/-- The media type of a form. -/
def formMediaType : String := "application/x-www-form-urlencoded"

end EvalRun.Http
