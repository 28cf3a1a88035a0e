import EvalRun.Config.Basic
import EvalRun.Toml.Writer

/-! # Config.Writer — settings as TOML

    Settings are written under the keys that they are read from, in the order
    of their sections. What is unset is left out, so it comes back unset.
-/

namespace EvalRun.Config

open Toml (Scalar Settings Layout)

/-- A setting under its key, or nothing if it is unset. -/
def written {α : Type} (key : String) (scalar : α → Scalar) : Option α → Settings
  | none => []
  | some value => [(key, scalar value)]

/-- The settings of the search service under their keys. -/
def backendSettings (b : BackendSettings) : Settings :=
  [("url", .string b.url), ("from", .natural b.pageStart), ("size", .natural b.pageSize)]
    ++ written "timeout_ms" .natural b.timeoutMs?
    ++ written "response_format" (fun f => .string f.name) b.responseFormat?

/-- The settings of scoring and ranking under their keys. -/
def scoringSettings (s : ScoringSettings) : Settings :=
  written "formula_boost" .float s.formulaBoost? ++ [("max_depth", .natural s.maxDepth)]

/-- The settings of padding under their keys. -/
def paddingSettings (p : PaddingSettings) : Settings :=
  written "enabled" .boolean p.enabled?
    ++ [("target", .natural p.target), ("filler_path", .string p.fillerPath)]
    ++ written "seed" (fun seed => .natural seed.toNat) p.seed?

/-- All settings in the order in which they are written. -/
def layout (c : RunConfig) : Layout where
  top :=
    [("profile", .string c.profile.name), ("topics", .string c.topicsPath),
      ("output", .string c.outputPath), ("run_tag", .string c.runTag)]
  sections :=
    [("backend", backendSettings c.backend), ("scoring", scoringSettings c.scoring),
      ("padding", paddingSettings c.padding),
      ("concurrency", [("variant_threads", .natural c.variantThreads)])]

/-- The text of a configuration, unless one of its numbers has no written
    form. -/
def write? (c : RunConfig) : Option String := Toml.write? (layout c)

/-- The file that a user starts from: the default settings, with a comment on
    each that is not plain. -/
def defaultText : String :=
  String.intercalate "\n"
    ["# mathrun configuration",
      "#",
      "# Profile: \"ntcir\" (default) or \"wiki\"",
      "#   \"ntcir\" = NTCIR-11 Math: keywords + formulas, boost 5, padding to 1000",
      "#   \"wiki\"  = NTCIR-11 Wikipedia: formulas only, no boost, no padding",
      "profile = \"ntcir\"",
      "",
      "topics = \"./queries.xml\"",
      "output = \"./KWARC.txt\"",
      "run_tag = \"KWARC_default\"",
      "",
      "[backend]",
      "url = \"http://localhost:8889/\"",
      "from = 0",
      "size = 100",
      "# Per-request timeout in milliseconds (default: wait forever)",
      "# timeout_ms = 30000",
      "# Response shape: \"auto\", \"flat\" or \"nested\" (default: auto)",
      "# response_format = \"auto\"",
      "",
      "[scoring]",
      "# Added to every hit of a formula-bearing query (default: follows profile)",
      "# formula_boost = 5.0",
      "max_depth = 1000",
      "",
      "[padding]",
      "# Pad topics with filler ids up to `target` (default: follows profile)",
      "# enabled = true",
      "target = 1000",
      "filler_path = \"./random_hits.txt\"",
      "# Fixed seed makes every topic's filler order reproducible",
      "# seed = 42",
      "",
      "[concurrency]",
      "# Threads issuing the queries of one topic (1 = sequential)",
      "variant_threads = 1",
      ""]

end EvalRun.Config
