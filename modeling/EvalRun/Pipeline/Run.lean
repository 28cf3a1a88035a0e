import EvalRun.Pipeline.Topic
import EvalRun.RunFile

/-! # Pipeline.Run — a whole run

    Topics are processed one at a time in their order, and the lines of each
    are written before the next is begun. The first topic that fails stops
    the run; what was written before stays written.
-/

namespace EvalRun.Pipeline

/-- What a run has done. -/
structure RunSummary where
  /-- The number of topics begun. -/
  topicsSeen : Nat
  /-- The number of topics with rows. -/
  topicsWritten : Nat
  /-- The number of topics that retrieved nothing. -/
  topicsDropped : Nat
  /-- The number of rows. -/
  rowsWritten : Nat
  /-- The number of topics with rows for which the filler pool ran out. -/
  topicsShort : Nat
  deriving DecidableEq, Repr

namespace RunSummary

/-- The summary before the first topic. -/
def zero : RunSummary := ⟨0, 0, 0, 0, 0⟩

/-- What one topic adds to a summary. -/
def record (s : RunSummary) : Option RankedList → RunSummary
  | none => { s with topicsSeen := s.topicsSeen + 1, topicsDropped := s.topicsDropped + 1 }
  | some list =>
    { s with
      topicsSeen := s.topicsSeen + 1
      topicsWritten := s.topicsWritten + 1
      rowsWritten := s.rowsWritten + list.size
      topicsShort := s.topicsShort + if list.paddingExhausted then 1 else 0 }

end RunSummary

/-- A run under way. -/
structure Progress where
  /-- What the topics so far add up to. -/
  summary : RunSummary
  /-- The lines written so far. -/
  output : String
  /-- The store between two topics. -/
  store : HitStore

namespace Progress

/-- A run before its first topic. -/
def start (store : HitStore) : Progress := ⟨.zero, "", store⟩

/-- Writes the lines of a finished topic. -/
def finish (p : Progress) (tag : String) (list? : Option RankedList) (store : HitStore) :
    Progress :=
  let lines := (list?.map (RunFile.block tag)).getD ""
  ⟨p.summary.record list?, p.output ++ lines, store⟩

end Progress

/-- Processes topics in their order up to the first that fails. -/
def runTopics {m : Type → Type} [Monad m] (backend : Backend m) (processor : Processor)
    (tag : String) (p : Progress) : List Topic → m (Except RunError Unit × Progress)
  | [] => return (.ok (), p)
  | topic :: rest => do
    match ← processTopic backend processor p.store topic with
    | (.error e, store) => return (.error e, { p with store })
    | (.ok list?, store) => runTopics backend processor tag (p.finish tag list? store) rest

/-- The outcome of a run and the lines it wrote. -/
structure RunResult where
  /-- The summary of a finished run, or what stopped it. -/
  outcome : Except RunError RunSummary
  /-- The lines written. -/
  output : String
  /-- The store at the end. -/
  store : HitStore

/-- Processes all topics of a run. -/
def run {m : Type → Type} [Monad m] (backend : Backend m) (processor : Processor)
    (store : HitStore) (tag : String) (topics : List Topic) : m RunResult := do
  let (outcome, p) ← runTopics backend processor tag (.start store) topics
  return ⟨outcome.map fun _ => p.summary, p.output, p.store⟩

end EvalRun.Pipeline
