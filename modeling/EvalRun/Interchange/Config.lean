import EvalRun.Config.Basic
import EvalRun.Interchange.Reader
import EvalRun.Interchange.Writer

/-! # Interchange.Config — settings as JSON

    Settings are read as records whose fields may all be left out, and are
    written in full, apart from what is unset. Ranges are not checked here.
-/

namespace EvalRun.Interchange

/-- The names of profiles. -/
def profileNames : List (String × Profile) := Profile.all.map fun p => (p.name, p)

/-- A profile. -/
def writeProfile (p : Profile) : String := writeString p.name

/-- The names of response formats. -/
def formatNames : List (String × Response.Format) :=
  Response.Format.all.map fun f => (f.name, f)

/-- A response format. -/
def writeFormat (f : Response.Format) : String := writeString f.name

/-! ### Sections -/

/-- How the settings of the search service are read. -/
def backendRecord : Record BackendSettings where
  name := "BackendConfig"
  blank := {}
  required := false
  fields :=
    [⟨"url", fun b => do return { b with url := ← text }⟩,
      ⟨"from", fun b => do return { b with pageStart := ← size }⟩,
      ⟨"size", fun b => do return { b with pageSize := ← size }⟩,
      ⟨"timeout_ms", fun b => do return { b with timeoutMs? := ← optional word }⟩,
      ⟨"response_format", fun b => do
        return { b with responseFormat? := ← optional (choice formatNames) }⟩]

/-- The settings of the search service. -/
def writeBackend (b : BackendSettings) : String :=
  writeObject
    ([("url", writeString b.url), ("from", writeNatural b.pageStart),
        ("size", writeNatural b.pageSize)]
      ++ presentMember "timeout_ms" writeNatural b.timeoutMs?
      ++ presentMember "response_format" writeFormat b.responseFormat?)

/-- How the settings of scoring and ranking are read. -/
def scoringRecord : Record ScoringSettings where
  name := "ScoringConfig"
  blank := {}
  required := false
  fields :=
    [⟨"formula_boost", fun s => do return { s with formulaBoost? := ← optional double }⟩,
      ⟨"max_depth", fun s => do return { s with maxDepth := ← size }⟩]

/-- The settings of scoring and ranking. -/
def writeScoring (s : ScoringSettings) : String :=
  writeObject
    (presentMember "formula_boost" writeDouble s.formulaBoost?
      ++ [("max_depth", writeNatural s.maxDepth)])

/-- How the settings of padding are read. -/
def paddingRecord : Record PaddingSettings where
  name := "PaddingConfig"
  blank := {}
  required := false
  fields :=
    [⟨"enabled", fun p => do return { p with enabled? := ← optional boolean }⟩,
      ⟨"target", fun p => do return { p with target := ← size }⟩,
      ⟨"filler_path", fun p => do return { p with fillerPath := ← path }⟩,
      ⟨"seed", fun p => do return { p with seed? := (← optional word).map UInt64.ofNat }⟩]

/-- The settings of padding. -/
def writePadding (p : PaddingSettings) : String :=
  writeObject
    (presentMember "enabled" writeBoolean p.enabled?
      ++ [("target", writeNatural p.target), ("filler_path", writeString p.fillerPath)]
      ++ presentMember "seed" (fun seed => writeNatural seed.toNat) p.seed?)

/-- How the only setting of concurrency is read. -/
def concurrencyRecord : Record Nat where
  name := "ConcurrencyConfig"
  blank := ({} : RunConfig).variantThreads
  required := false
  fields := [⟨"variant_threads", fun _ => size⟩]

/-! ### All settings -/

/-- How the settings of a run are read. -/
def configRecord : Record RunConfig where
  name := "RunConfig"
  blank := {}
  required := false
  fields :=
    [⟨"profile", fun c => do return { c with profile := ← choice profileNames }⟩,
      ⟨"topics", fun c => do return { c with topicsPath := ← path }⟩,
      ⟨"output", fun c => do return { c with outputPath := ← path }⟩,
      ⟨"run_tag", fun c => do return { c with runTag := ← text }⟩,
      ⟨"backend", fun c => do return { c with backend := ← backendRecord.read }⟩,
      ⟨"scoring", fun c => do return { c with scoring := ← scoringRecord.read }⟩,
      ⟨"padding", fun c => do return { c with padding := ← paddingRecord.read }⟩,
      ⟨"concurrency", fun c => do return { c with variantThreads := ← concurrencyRecord.read }⟩]

/-- The settings of a run. -/
def writeConfig (c : RunConfig) : String :=
  writeObject
    [("profile", writeProfile c.profile), ("topics", writeString c.topicsPath),
      ("output", writeString c.outputPath), ("run_tag", writeString c.runTag),
      ("backend", writeBackend c.backend), ("scoring", writeScoring c.scoring),
      ("padding", writePadding c.padding),
      ("concurrency", writeObject [("variant_threads", writeNatural c.variantThreads)])]

end EvalRun.Interchange
