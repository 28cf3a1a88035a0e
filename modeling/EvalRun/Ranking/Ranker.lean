import EvalRun.Ranking.Entry

/-! # Ranking.Ranker — sorting, cutting and numbering

    The rows are sorted in ranking order, cut at the greatest depth and
    numbered from one. Sorting keeps rows of equal score and id in the order
    in which they came.
-/

namespace EvalRun

/-- Ranks rows down to a greatest depth. -/
structure Ranker where
  /-- The greatest number of rows. -/
  maxDepth : Nat
  /-- Ranks are numbers of 32 bits. -/
  maxDepth_lt : maxDepth < 0x100000000
  deriving DecidableEq, Repr

namespace Ranker

/-- The greatest depth there is. -/
def depthLimit : Nat := 0xFFFFFFFF

/-- A ranker of the given depth, or of the greatest depth there is. -/
def ofDepth (depth : Nat) : Ranker :=
  ⟨min depth depthLimit, Nat.lt_of_le_of_lt (Nat.min_le_right _ _) (by decide)⟩

/-- Numbers rows in their order. -/
def number (first : Nat) : List RankedEntry → List RankedEntry
  | [] => []
  | e :: rest => { e with rank := first } :: number (first + 1) rest

/-- Ranks the rows of a topic. -/
def rank (r : Ranker) (topic : String) (entries : List RankedEntry) (paddingExhausted : Bool) :
    RankedList :=
  let sorted := entries.mergeSort RankedEntry.le
  { topic
    entries := number 1 (sorted.take r.maxDepth)
    truncated := decide (r.maxDepth < entries.length)
    paddingExhausted }

end Ranker

end EvalRun
