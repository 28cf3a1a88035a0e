import EvalRun.Text.Blank
import EvalRun.Xml.Document

/-! # Topics.RawTopic — what a topic document says

    The root element of a topic document is `topics`, and every element inside
    it is a topic, whatever its name:

    * its **id** is the text of its first `num` element, trimmed;
    * its **keywords** are the texts of its `query/keyword` elements;
    * its **formulas** are its `query/formula/math/semantics/apply` elements as
      they were written, or the `cerror` elements in their place if there is
      no `apply` at all.
-/

namespace EvalRun.Topics

/-- A topic before it is expanded into requests. -/
structure RawTopic where
  /-- The identifier. -/
  id : String
  /-- The keyword texts in document order. -/
  keywords : List String
  /-- The markup of the formulas in document order. -/
  formulas : List String
  deriving DecidableEq, Repr

/-- Why a topic document is not accepted. -/
inductive DocumentFault where
  /-- The text is not well-formed XML. -/
  | notWellFormed
  /-- The root element has this name. -/
  | wrongRoot (name : String)
  /-- The topic at this place, counted from one, has no id. -/
  | missingId (position : Nat)
  deriving DecidableEq, Repr

open Xml (Node)

/-- The id of a topic: nothing if it is missing or blank. -/
def idOf? (topic : Node) : Option (List Char) := do
  let num ← (topic.childrenNamed "num").head?
  let id := Text.trimBlank num.leadingText
  if id.isEmpty then none else some id

/-- The texts of the keywords of a topic. -/
def keywordsOf (topic : Node) : List String :=
  (topic.select ["query", "keyword"]).map fun n => String.ofList n.leadingText

/-- The markup of the elements at the place of a formula. -/
def markupOf (document : List Char) (topic : Node) (leaf : String) : List String :=
  (topic.select ["query", "formula", "math", "semantics", leaf]).map fun n =>
    String.ofList (n.source document)

/-- The markup of the formulas of a topic. -/
def formulasOf (document : List Char) (topic : Node) : List String :=
  match markupOf document topic "apply" with
  | [] => markupOf document topic "cerror"
  | found => found

/-- What an element says as a topic: nothing if it has no id. -/
def ofElement? (document : List Char) (topic : Node) : Option RawTopic := do
  let id ← idOf? topic
  some ⟨String.ofList id, keywordsOf topic, formulasOf document topic⟩

/-- The topics of elements, the first of which has the given position. -/
def ofElements (document : List Char) (position : Nat) :
    List Node → Except DocumentFault (List RawTopic)
  | [] => .ok []
  | topic :: rest =>
    match ofElement? document topic with
    | none => .error (.missingId position)
    | some raw => (ofElements document (position + 1) rest).map (raw :: ·)

/-- The topics of a well-formed document. -/
def ofDocument (document : Xml.Document) : Except DocumentFault (List RawTopic) :=
  if document.root.isNamed "topics" then ofElements document.chars 1 document.root.elements
  else .error (.wrongRoot (String.ofList document.root.localName))

/-- Reads the topics of a document. -/
def parse (text : String) : Except DocumentFault (List RawTopic) :=
  match Xml.Document.parse text with
  | none => .error .notWellFormed
  | some document => ofDocument document

/-- The text of a fault. -/
def DocumentFault.message : DocumentFault → String
  | notWellFormed => "invalid topic XML"
  | wrongRoot name => "expected <topics> root element, found <" ++ name ++ ">"
  | missingId position => "topic #" ++ toString position ++ " has no <num>"

end EvalRun.Topics
