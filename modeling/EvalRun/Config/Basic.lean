import EvalRun.Config.Profile
import EvalRun.Http.Endpoint
import EvalRun.Response.Decoder

/-! # Config.Basic — the settings of a run

    Settings come in layers: what is not set follows the profile or a fixed
    default. An optional setting stays unset until it is asked for, so that
    changing the profile changes everything that follows it.

    `RunConfig.validate` says which settings a run accepts, and names the
    first that is out of range.
-/

namespace EvalRun

/-! ### Sections -/

/-- Settings of the search service. -/
structure BackendSettings where
  /-- The address of the service. -/
  url : String := Http.Endpoint.defaultUrl
  /-- The number of results before the page that is asked for. -/
  pageStart : Nat := Http.Endpoint.defaultPageStart
  /-- The number of results on the page. -/
  pageSize : Nat := Http.Endpoint.defaultPageSize
  /-- The milliseconds that one exchange may take. -/
  timeoutMs? : Option Nat := none
  /-- The shapes of response that are accepted. -/
  responseFormat? : Option Response.Format := none
  deriving DecidableEq, Repr

/-- The depth of a ranking when nothing else is configured. -/
def defaultMaxDepth : Nat := 1000

/-- Settings of scoring and ranking. -/
structure ScoringSettings where
  /-- The boost for hits of requests with a formula. -/
  formulaBoost? : Option Binary64 := none
  /-- The greatest number of rows of a topic. -/
  maxDepth : Nat := defaultMaxDepth
  deriving DecidableEq, Repr

/-- The padding target when nothing else is configured. -/
def defaultPaddingTarget : Nat := 1000

/-- The filler file when nothing else is configured. -/
def defaultFillerPath : String := "./random_hits.txt"

/-- Settings of padding. -/
structure PaddingSettings where
  /-- Short topics are padded. -/
  enabled? : Option Bool := none
  /-- The number of rows to reach. -/
  target : Nat := defaultPaddingTarget
  /-- The file of the filler pool. -/
  fillerPath : String := defaultFillerPath
  /-- The seed of the order in which fillers are drawn. -/
  seed? : Option UInt64 := none
  deriving DecidableEq, Repr

/-! ### All settings -/

/-- The topic file when nothing else is configured. -/
def defaultTopicsPath : String := "./queries.xml"

/-- The run file when nothing else is configured. -/
def defaultOutputPath : String := "./KWARC.txt"

/-- The run tag when nothing else is configured. -/
def defaultRunTag : String := "KWARC_default"

/-- The settings of a run. -/
structure RunConfig where
  /-- The task. -/
  profile : Profile := .ntcir
  /-- The topic file. -/
  topicsPath : String := defaultTopicsPath
  /-- The run file. -/
  outputPath : String := defaultOutputPath
  /-- The text in the last column of every row. -/
  runTag : String := defaultRunTag
  /-- The search service. -/
  backend : BackendSettings := {}
  /-- Scoring and ranking. -/
  scoring : ScoringSettings := {}
  /-- Padding. -/
  padding : PaddingSettings := {}
  /-- The number of requests of one topic that may be under way at once. -/
  variantThreads : Nat := 1
  deriving DecidableEq, Repr

namespace RunConfig

/-- The default settings of a profile. -/
def ofProfile (profile : Profile) : RunConfig := { profile }

/-! ### Settings as they apply -/

/-- The boost that applies. -/
def formulaBoost (c : RunConfig) : Binary64 := c.scoring.formulaBoost?.getD c.profile.formulaBoost

/-- Padding is on. -/
def paddingEnabled (c : RunConfig) : Bool := c.padding.enabled?.getD c.profile.paddingEnabled

/-- The shapes of response that are accepted. -/
def responseFormat (c : RunConfig) : Response.Format := c.backend.responseFormat?.getD .auto

/-- The search service. -/
def endpoint (c : RunConfig) : Http.Endpoint :=
  ⟨c.backend.url, c.backend.pageStart, c.backend.pageSize, c.backend.timeoutMs?⟩

/-! ### Ranges -/

/-- A character that would break the row of a run file. -/
def breaksRow (c : Char) : Bool := c = '\t' || c = '\n' || c = '\r'

/-- The settings that are out of range, in the order in which they are
    checked. -/
def violations (c : RunConfig) : List Violation :=
  [(c.runTag.isEmpty, Violation.emptyRunTag),
    (c.runTag.toList.any breaksRow, .brokenRunTag),
    (c.backend.pageSize = 0, .zeroPageSize),
    (c.scoring.maxDepth = 0, .zeroDepth),
    (Ranker.depthLimit < c.scoring.maxDepth, .excessiveDepth),
    (!c.formulaBoost.isFinite, .infiniteBoost),
    (c.paddingEnabled && c.padding.target = 0, .zeroTarget),
    (c.variantThreads = 0, .zeroThreads)].filterMap fun (holds, violation) =>
      if holds then some violation else none

/-- Accepts settings that are all in range. -/
def validate (c : RunConfig) : Except RunError Unit :=
  match c.violations with
  | [] => .ok ()
  | violation :: _ => .error (.config (.invalid violation))

/-! ### Comparison -/

/-- Two boosts are the same number: a NaN is none, and both zeros are one. -/
def sameBoost : Option Binary64 → Option Binary64 → Bool
  | none, none => true
  | some x, some y => !x.isNaN && !y.isNaN && x.lineKey = y.lineKey
  | _, _ => false

/-- Two configurations set the same things to the same values, with boosts
    compared as numbers. -/
def agrees (c d : RunConfig) : Bool :=
  sameBoost c.scoring.formulaBoost? d.scoring.formulaBoost? &&
    { c with scoring := { c.scoring with formulaBoost? := none } } =
      { d with scoring := { d.scoring with formulaBoost? := none } }

end RunConfig

end EvalRun
