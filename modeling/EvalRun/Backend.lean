import EvalRun.Query

/-! # Backend — who answers the requests

    A backend answers one request with the body of a response, or fails. It
    only moves text: decoding the body is not its work. The effects that an
    answer costs are a parameter, so a run can be driven by a table, by a log
    of the requests, or by a network.
-/

namespace EvalRun

/-- Why a backend gave no body. -/
inductive BackendFault where
  /-- The exchange failed, for the stated reason. -/
  | network (reason : String)
  /-- The backend answered with a status that is no success. -/
  | status (code : Nat)
  /-- The backend did not answer in time. -/
  | timeout
  deriving DecidableEq, Repr

/-- The text of a backend fault. -/
def BackendFault.message : BackendFault → String
  | network reason => "network error: " ++ reason
  | status code => "backend returned HTTP status " ++ toString code
  | timeout => "backend request timed out"

/-- What a backend gives for a request. -/
abbrev Answer := Except BackendFault String

/-- A search backend. -/
structure Backend (m : Type → Type) where
  /-- Answers a request. -/
  query : QueryVariant → m Answer

namespace Backend

/-- The backend whose answer depends on the request alone. -/
def ofFunction (answer : QueryVariant → Answer) : Backend Id := ⟨answer⟩

/-- A backend that also keeps the requests, in the order in which they are
    issued. -/
def logged (answer : QueryVariant → Answer) : Backend (StateM (List QueryVariant)) :=
  ⟨fun variant issued => (answer variant, issued ++ [variant])⟩

end Backend

end EvalRun
