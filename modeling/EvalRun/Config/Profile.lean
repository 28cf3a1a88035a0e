import EvalRun.RunError
import EvalRun.Topics.Source
import EvalRun.Binary64.Rounding

/-! # Config.Profile — the task that a run is for

    A profile decides how topics become requests, and gives the boost and the
    padding that apply unless the configuration sets them.
-/

namespace EvalRun

/-- The tasks. -/
inductive Profile where
  /-- Keywords and formulas, boosted and padded. -/
  | ntcir
  /-- Formulas alone, neither boosted nor padded. -/
  | wiki
  deriving DecidableEq, Repr

namespace Profile

/-- All tasks. -/
def all : List Profile := [.ntcir, .wiki]

/-- The name of a profile. -/
def name : Profile → String
  | ntcir => "ntcir"
  | wiki => "wiki"

/-- The profile with the given name. -/
def ofName? (name : String) : Option Profile := all.find? fun p => p.name = name

/-- The profile with the given name, or the error that there is none. -/
def parse (name : String) : Except RunError Profile :=
  match ofName? name with
  | some p => .ok p
  | none => .error (.config (.unknownProfile name))

/-- How topics become requests. -/
def variantPolicy : Profile → Topics.VariantPolicy
  | ntcir => .ntcir
  | wiki => .wiki

/-- The boost for hits of requests with a formula. -/
def formulaBoost : Profile → Binary64
  | ntcir => .ofNat 5
  | wiki => .zero

/-- Short topics are padded. -/
def paddingEnabled : Profile → Bool
  | ntcir => true
  | wiki => false

end Profile

end EvalRun
