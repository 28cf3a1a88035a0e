import EvalRun.Binary64.Layout
import EvalRun.FileSystem
import EvalRun.Ranking.Entry

/-! # RunFile — the rows of a run

    A run file has one row per ranked document, in six columns with tabs
    between them: the topic, the number one, the document, its rank, its score
    and the tag of the run. Scores are written with the fewest digits that
    read back, and always with a point; a filler has a plain zero, so the file
    tells fillers from documents that were retrieved with a score of zero.
-/

namespace EvalRun

/-- How scores are written: never with an exponent, and always with a point if
    they are finite. -/
def scoreLayout : NumberLayout := ⟨.away, true, none, "NaN"⟩

namespace RankedEntry

/-- The score column. -/
def scoreColumn (e : RankedEntry) : String :=
  if e.isFiller then "0" else scoreLayout.render e.score

/-- The columns of a row. -/
def columns (topic tag : String) (e : RankedEntry) : List String :=
  [topic, "1", e.doc, toString e.rank, e.scoreColumn, tag]

/-- A row without its line end. -/
def row (topic tag : String) (e : RankedEntry) : String :=
  String.intercalate "\t" (e.columns topic tag)

end RankedEntry

namespace RunFile

/-- Rows as lines. -/
def lines (rows : List String) : String := String.join (rows.map fun row => row ++ "\n")

/-- The lines of a topic. -/
def block (tag : String) (list : RankedList) : String :=
  lines (list.entries.map fun e => e.row list.topic tag)

/-- The lines of a run. -/
def text (tag : String) (lists : List RankedList) : String :=
  String.join (lists.map (block tag))

theorem text_cons (tag : String) (list : RankedList) (rest : List RankedList) :
    text tag (list :: rest) = block tag list ++ text tag rest := by
  simp [text]

theorem text_append (tag : String) (lists others : List RankedList) :
    text tag (lists ++ others) = text tag lists ++ text tag others := by
  simp [text]

/-- Writes the lines of topics to a file. -/
def write (fs : FileSystem) (path tag : String) (lists : List RankedList) :
    Except FileFault FileSystem :=
  fs.writeText path (text tag lists)

end RunFile

end EvalRun
