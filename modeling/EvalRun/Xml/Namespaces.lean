import EvalRun.Xml.Token

/-! # Xml.Namespaces — the names that qualifiers stand for

    Attributes named `xmlns` bind qualifiers to namespace names, for the
    element they stand on and all inside it. Three rules are checked: every
    qualifier in use is bound, the reserved qualifiers keep their meaning, and
    no two attributes of an element have one name once qualifiers are replaced
    by what they stand for.
-/

namespace EvalRun.Xml

/-- The namespace that the qualifier `xml` stands for. -/
def xmlNamespace : String := "http://www.w3.org/XML/1998/namespace"

/-- The namespace of the attributes that bind qualifiers. -/
def xmlnsNamespace : String := "http://www.w3.org/2000/xmlns/"

/-- A qualifier, empty for the default namespace, with the namespace it stands
    for. -/
structure Binding where
  qualifier : List Char
  uri : List Char
  deriving DecidableEq, Repr

/-- An attribute after its value was normalized. -/
structure Attribute where
  name : Name
  value : List Char
  deriving DecidableEq, Repr

/-- What the attributes of a tag come to: the bindings they make, in their
    order, and the attributes proper. -/
structure TagAttributes where
  bindings : List Binding
  others : List Name

namespace TagAttributes

/-- Takes in one attribute. A qualifier is bound once at most; the default
    namespace may be bound again, and the first binding counts. -/
def push (t : TagAttributes) (a : Attribute) : Option TagAttributes :=
  let reserved := a.value = xmlnsNamespace.toList
  let isXml := a.value = xmlNamespace.toList
  if a.name.qualifier = "xmlns".toList then
    if reserved then none
    else if a.name.localPart = "xml".toList then
      if isXml then some t else none
    else if isXml then none
    else if t.bindings.any fun b => b.qualifier = a.name.localPart then none
    else some { t with bindings := t.bindings ++ [⟨a.name.localPart, a.value⟩] }
  else if a.name.localPart = "xmlns".toList then
    if reserved || isXml then none
    else some { t with bindings := t.bindings ++ [⟨[], a.value⟩] }
  else some { t with others := t.others ++ [a.name] }

/-- Takes in all attributes of a tag. -/
def ofList (attributes : List Attribute) : Option TagAttributes :=
  attributes.foldlM push ⟨[], []⟩

end TagAttributes

/-- The bindings inside an element: its own before those around it. -/
def innerBindings (own outer : List Binding) : List Binding :=
  own ++ outer.filter fun b => !own.any fun o => o.qualifier = b.qualifier

/-- The namespace of a qualifier: nothing if it is unbound. -/
def resolve (bindings : List Binding) (qualifier : List Char) : Option (List Char) :=
  (bindings.find? fun b => b.qualifier = qualifier).map (·.uri)

/-- The name of an attribute with its qualifier replaced; without a qualifier
    it has no namespace. -/
def expandAttribute (bindings : List Binding) (name : Name) :
    Option (Option (List Char) × List Char) :=
  if name.qualifier = "xml".toList then some (some xmlNamespace.toList, name.localPart)
  else if name.qualifier.isEmpty then some (none, name.localPart)
  else (resolve bindings name.qualifier).map fun uri => (some uri, name.localPart)

/-- Every attribute has a bound qualifier and a name of its own. -/
def attributesValid (bindings : List Binding) (names : List Name) : Bool :=
  match names.mapM (expandAttribute bindings) with
  | some expanded => decide expanded.Nodup
  | none => false

/-- The qualifier of an element is empty or bound. -/
def elementValid (bindings : List Binding) (name : Name) : Bool :=
  name.qualifier.isEmpty || (resolve bindings name.qualifier).isSome

end EvalRun.Xml
