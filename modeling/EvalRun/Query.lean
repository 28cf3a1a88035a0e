import EvalRun.Binary64.Basic

/-! # Query — topics and the requests they are searched with

    A topic is searched with one request per variant. A variant pairs keyword
    text with formula markup, and either of them may be empty; only a variant
    with a formula earns its hits the formula boost.
-/

namespace EvalRun

/-- One request to the search backend. -/
structure QueryVariant where
  /-- The keyword text. -/
  keywords : String
  /-- The formula markup; empty for a request by keywords alone. -/
  formula : String
  deriving DecidableEq, Repr

namespace QueryVariant

/-- Hits of this variant receive the formula boost. -/
def hasFormula (v : QueryVariant) : Bool := !v.formula.isEmpty

/-- A request without a formula. -/
def keywordsOnly (keywords : String) : QueryVariant := ⟨keywords, ""⟩

end QueryVariant

/-- A topic of an evaluation with its requests. -/
structure Topic where
  /-- The identifier, written back as it was read. -/
  id : String
  /-- The requests in the order in which they are issued. -/
  variants : List QueryVariant
  deriving DecidableEq, Repr

/-- One document that the backend returned for a request. -/
structure Hit where
  /-- The identifier of the document. -/
  doc : String
  /-- The relevance score of the document. -/
  score : Binary64
  deriving DecidableEq, Repr

end EvalRun
