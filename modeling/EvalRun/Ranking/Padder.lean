import EvalRun.Filler
import EvalRun.Ranking.Entry

/-! # Ranking.Padder — topping a ranking up with fillers

    A topic with fewer documents than the target is topped up from its own
    order of the filler pool, in one pass. Ids that the topic already has, and
    ids drawn before, are skipped. If the pool runs out first, the topic stays
    short and the outcome says so.
-/

namespace EvalRun

/-- What a padding pass did. -/
structure PaddingOutcome where
  /-- The number of fillers added. -/
  added : Nat
  /-- The pool ran out before the target was reached. -/
  exhausted : Bool
  deriving DecidableEq, Repr

/-- The first ids of an order that are not reserved and not repeated, at most
    as many as there is room for. -/
def drawFillers (room : Nat) (reserved : List String) : List String → List String
  | [] => []
  | id :: rest =>
    if room = 0 then []
    else if id ∈ reserved then drawFillers room reserved rest
    else id :: drawFillers (room - 1) (id :: reserved) rest

/-- Rows padded up to a target with the ids of an order, and the outcome. -/
def padWithOrder (target : Nat) (entries : List RankedEntry) (order : List String) :
    List RankedEntry × PaddingOutcome :=
  let drawn := drawFillers (target - entries.length) (entries.map (·.doc)) order
  (entries ++ drawn.map RankedEntry.ofFiller,
    ⟨drawn.length, decide (entries.length + drawn.length < target)⟩)

/-- Pads every topic up to a target from one pool. -/
structure Padder where
  /-- The pool. -/
  pool : FillerPool
  /-- The number of rows to reach. -/
  target : Nat
  /-- What the order of every topic is drawn from. -/
  shuffling : Shuffling

namespace Padder

/-- The order in which a topic draws from the pool. -/
def orderFor (p : Padder) (topic : String) : List String :=
  (p.pool.shuffled (p.shuffling.generatorFor topic)).1

/-- Pads the rows of a topic. Rows that reach the target are left alone, and
    no order is drawn for them. -/
def pad (p : Padder) (topic : String) (entries : List RankedEntry) :
    List RankedEntry × PaddingOutcome :=
  if p.target ≤ entries.length then (entries, ⟨0, false⟩)
  else padWithOrder p.target entries (p.orderFor topic)

end Padder

end EvalRun
