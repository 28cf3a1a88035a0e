import EvalRun.Config.Basic
import EvalRun.Ranking.Processor

/-! # Config.Build — the parts of a run

    The settings decide every part of a run: its topics, the store of its
    hits, its padding and ranking. Files are read here, and an unreadable one
    is an error that names it.
-/

namespace EvalRun

/-- Reads and expands a topic file. -/
def Topics.Source.load (policy : VariantPolicy) (fs : FileSystem) (path : String) :
    Except RunError Source :=
  match fs.readText path with
  | .error fault => .error (.topics (.unreadable path fault))
  | .ok text =>
    match Source.parse policy text with
    | .error fault => .error (.topics (.document fault))
    | .ok source => .ok source

/-- Reads a filler file. -/
def FillerPool.load (fs : FileSystem) (path : String) : Except FileFault FillerPool :=
  (fs.readText path).map FillerPool.ofText

namespace RunConfig

/-- The topics of a run. -/
def loadTopics (c : RunConfig) (fs : FileSystem) : Except RunError Topics.Source :=
  Topics.Source.load c.profile.variantPolicy fs c.topicsPath

/-- The store of a run, without topics yet. -/
def newStore (c : RunConfig) : HitStore := .new c.formulaBoost (.ofFormat c.responseFormat)

/-- The padding and ranking of a run. The filler file is read only if padding
    is on. Where the settings fix no seed, the generators of the topics come
    from the one given. -/
def processor (c : RunConfig) (fs : FileSystem) (drawnSeed : UInt64) :
    Except RunError Processor :=
  let ranker := Ranker.ofDepth c.scoring.maxDepth
  if c.paddingEnabled then
    match FillerPool.load fs c.padding.fillerPath with
    | .error fault => .error (.config (.fillerUnreadable c.padding.fillerPath fault))
    | .ok pool =>
      let shuffling := match c.padding.seed? with
        | some seed => .seeded seed
        | none => .unseeded (topicGenerator drawnSeed)
      .ok ⟨some ⟨pool, c.padding.target, shuffling⟩, ranker⟩
  else .ok ⟨none, ranker⟩

end RunConfig

end EvalRun
