import EvalRun.Random.Generator
import EvalRun.Random.XXH3
import EvalRun.Text.Blank
import EvalRun.Text.Lines

/-! # Filler — the pool of documents that pad a short ranking

    A filler pool is a fixed list of document ids that have nothing to do with
    any topic. Every topic draws from an order of its own. With a seed, the
    generator behind that order depends on the seed and the topic id alone, so
    a topic is padded alike whatever topics come before it. Without one, every
    topic is given a generator of which nothing is known.
-/

namespace EvalRun

/-- The ids that rankings are padded with, in the order of their file. -/
structure FillerPool where
  ids : List String
  deriving DecidableEq, Repr

namespace FillerPool

/-- Reads a filler file: one id a line, white space around it trimmed, blank
    lines skipped. -/
def ofText (text : String) : FillerPool :=
  let trimmed := (Text.lines text.toList).map Text.trimBlank
  ⟨(trimmed.filter fun line => !line.isEmpty).map String.ofList⟩

/-- The number of ids. -/
def size (pool : FillerPool) : Nat := pool.ids.length

/-- The pool has no ids. -/
def isEmpty (pool : FillerPool) : Bool := pool.ids.isEmpty

/-- The ids in a random order, and the generator behind it. -/
def shuffled (pool : FillerPool) (g : Random.Generator) : List String × Random.Generator :=
  g.shuffle pool.ids

end FillerPool

/-- The generator of a topic. -/
def topicGenerator (seed : UInt64) (topic : String) : Random.Generator :=
  .ofSeed (seed ^^^ Random.XXH3.hashText topic)

/-- What the orders of the topics are drawn from. -/
inductive Shuffling where
  /-- A seed that all topics share. -/
  | seeded (seed : UInt64)
  /-- No seed: the generators that the topics are given. -/
  | unseeded (generator : String → Random.Generator)

namespace Shuffling

instance : Coe UInt64 Shuffling := ⟨seeded⟩

/-- The generator that the order of a topic is drawn from. -/
def generatorFor : Shuffling → String → Random.Generator
  | seeded seed, topic => topicGenerator seed topic
  | unseeded generator, topic => generator topic

end Shuffling

end EvalRun
