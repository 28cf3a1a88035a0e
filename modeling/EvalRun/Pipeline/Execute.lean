import EvalRun.Config.Build
import EvalRun.Http.Exchange
import EvalRun.Pipeline.Run

/-! # Pipeline.Execute — a configuration, run

    Everything a run needs is read and checked before the run file is touched:
    the topics, the settings, the filler pool. Then the run file is created,
    empty, and only then the first request is issued. So a run that cannot
    start leaves the files as they were.
-/

namespace EvalRun.Pipeline

/-- What a run needs, once everything has been read and checked. -/
structure Preparation where
  /-- The topics. -/
  topics : List Topic
  /-- Padding and ranking. -/
  processor : Processor
  /-- The place of the run file. -/
  target : Place

/-- The padding and ranking of settings that are all in range. -/
def checkedProcessor (c : RunConfig) (fs : FileSystem) (drawnSeed : UInt64) :
    Except RunError Processor := do
  c.validate
  c.processor fs drawnSeed

/-- Reads and checks everything that a run needs. -/
def prepare (c : RunConfig) (fs : FileSystem) (drawnSeed : UInt64) :
    Except RunError Preparation := do
  let source ← c.loadTopics fs
  let processor ← checkedProcessor c fs drawnSeed
  match fs.writablePlace c.outputPath with
  | .error fault => .error (.io fault)
  | .ok target => .ok ⟨source.topics, processor, target⟩

/-- Runs a configuration against a backend. The files afterwards are those
    before with the run file written. -/
def executeOver {m : Type → Type} [Monad m] (c : RunConfig) (backend : Backend m)
    (fs : FileSystem) (drawnSeed : UInt64) : m (Except RunError RunSummary × FileSystem) := do
  match prepare c fs drawnSeed with
  | .error e => return (.error e, fs)
  | .ok ready =>
    let result ← run backend ready.processor c.newStore c.runTag ready.topics
    return (result.outcome, fs.put ready.target (.file result.output.toUTF8))

/-- Runs a configuration against the service that it names. -/
def execute {m : Type → Type} [Monad m] (c : RunConfig) (transport : Http.Transport m)
    (fs : FileSystem) (drawnSeed : UInt64) : m (Except RunError RunSummary × FileSystem) :=
  executeOver c (c.endpoint.backend transport) fs drawnSeed

end EvalRun.Pipeline
