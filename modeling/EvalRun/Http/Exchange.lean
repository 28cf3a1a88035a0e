import EvalRun.Http.Endpoint

/-! # Http.Exchange — what comes back for a form

    A transport sends a form and reports the outcome. Any status below 400
    counts as success, and its body is passed on untouched.
-/

namespace EvalRun.Http

/-- The outcome of one exchange. -/
inductive Outcome where
  /-- The service responded. -/
  | response (status : Nat) (body : String)
  /-- The service took too long. -/
  | timedOut
  /-- The service could not be reached, or broke off, for the stated reason. -/
  | failed (reason : String)
  deriving DecidableEq, Repr, Inhabited

/-- The least status that reports an error. -/
def leastErrorStatus : Nat := 400

/-- What an outcome means to a run. -/
def Outcome.answer : Outcome → Answer
  | response status body =>
    if status < leastErrorStatus then .ok body else .error (.status status)
  | timedOut => .error .timeout
  | failed reason => .error (.network reason)

/-- Sends a form to a service. -/
structure Transport (m : Type → Type) where
  /-- Sends the text of a form. -/
  send : Endpoint → String → m Outcome

/-- The backend behind an endpoint. -/
def Endpoint.backend {m : Type → Type} [Monad m] (e : Endpoint) (transport : Transport m) :
    Backend m :=
  ⟨fun variant => return (← transport.send e (formBody (e.formFields variant))).answer⟩

/-- The transport of a machine without a network. -/
def Transport.unreachable {m : Type → Type} [Monad m] (reason : String) : Transport m :=
  ⟨fun _ _ => return .failed reason⟩

end EvalRun.Http
