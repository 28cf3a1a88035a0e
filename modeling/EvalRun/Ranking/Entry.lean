import EvalRun.Binary64.Basic

/-! # Ranking.Entry — the rows of a ranking and their order

    A row is a document with its final score. Rows are ordered by score,
    highest first in the total order of doubles, and rows of one score by
    document id. So a row's place depends on nothing but its score and its id.
-/

namespace EvalRun

/-- Where a row comes from. -/
inductive Origin where
  /-- At least one request returned the document. -/
  | retrieved
  /-- Padding drew the document from the filler pool. -/
  | filler
  deriving DecidableEq, Repr

/-- One row of a ranking. -/
structure RankedEntry where
  /-- The identifier of the document. -/
  doc : String
  /-- The final score: the best boosted score, or zero for a filler. -/
  score : Binary64
  /-- The place in the ranking, counted from one; zero before ranking. -/
  rank : Nat
  /-- Where the row comes from. -/
  origin : Origin
  deriving DecidableEq, Repr

namespace RankedEntry

/-- A retrieved document before ranking. -/
def ofRetrieved (doc : String) (score : Binary64) : RankedEntry := ⟨doc, score, 0, .retrieved⟩

/-- A filler before ranking. -/
def ofFiller (doc : String) : RankedEntry := ⟨doc, .zero, 0, .filler⟩

/-- The row was added by padding. -/
def isFiller (e : RankedEntry) : Bool := e.origin = .filler

/-- The order of ranking: by score, the highest first, then by id. -/
def order (a b : RankedEntry) : Ordering :=
  (compare b.score.totalKey a.score.totalKey).then (compare a.doc b.doc)

/-- The first row may stand before the second. -/
def le (a b : RankedEntry) : Bool := order a b != .gt

end RankedEntry

/-- The ranking of a topic. -/
structure RankedList where
  /-- The topic. -/
  topic : String
  /-- The rows in ranking order, with their ranks. -/
  entries : List RankedEntry
  /-- Rows were cut off at the greatest depth. -/
  truncated : Bool
  /-- The filler pool ran out before the padding target was reached. -/
  paddingExhausted : Bool
  deriving DecidableEq, Repr

namespace RankedList

/-- The number of rows. -/
def size (list : RankedList) : Nat := list.entries.length

/-- The number of rows added by padding. -/
def fillerCount (list : RankedList) : Nat := (list.entries.filter (·.isFiller)).length

end RankedList

end EvalRun
