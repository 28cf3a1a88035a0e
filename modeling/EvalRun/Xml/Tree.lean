/-! # Xml.Tree — elements and what they contain

    A document is a tree of elements. Elements are told apart by the local
    part of their name, so a namespace prefix never matters, and each knows
    where in the document it was written.

    Adjacent character data forms one text node, and comments and processing
    instructions are nodes too. So the *text* of an element, its first child
    if that is a text node, ends at the first comment.
-/

namespace EvalRun.Xml

/-- A node of a document. -/
inductive Node where
  /-- An element: the local part of its name, the places of its first
      character and behind its last, and its children in order. -/
  | element (name : List Char) (first last : Nat) (children : List Node)
  /-- Character data. -/
  | text (chars : List Char)
  /-- A comment. -/
  | comment
  /-- A processing instruction. -/
  | instruction
  deriving Repr, Inhabited

namespace Node

/-- The node is an element. -/
def isElement : Node → Bool
  | element .. => true
  | _ => false

/-- The local part of an element's name. -/
def localName : Node → List Char
  | element name .. => name
  | _ => []

/-- The node is an element of the given local name. -/
def isNamed (name : String) : Node → Bool
  | element own .. => own = name.toList
  | _ => false

/-- The nodes directly inside an element. -/
def children : Node → List Node
  | element _ _ _ children => children
  | _ => []

/-- The children that are elements. -/
def elements (n : Node) : List Node := n.children.filter isElement

/-- The children that are elements of the given local name. -/
def childrenNamed (name : String) (n : Node) : List Node := n.children.filter (isNamed name)

/-- The text of an element: its first child if that is character data. -/
def leadingText (n : Node) : List Char :=
  match n.children.head? with
  | some (text chars) => chars
  | _ => []

/-- The elements at the end of a path of local names, level by level: each
    name replaces the nodes by their children of that name. -/
def select (n : Node) (path : List String) : List Node :=
  path.foldl (fun level name => level.flatMap (childrenNamed name)) [n]

/-- The characters of a document that an element was written with. -/
def source (document : List Char) : Node → List Char
  | element _ first last _ => (document.drop first).take (last - first)
  | _ => []

end Node

end EvalRun.Xml
