/-!
# XML trees

An element is a tag and a list of children. A tag keeps, beside its name and its attributes, the
prefix it was written with, the namespace it is in, and the bindings of prefixes that are in force.
-/

namespace ModelIR.Xml

/-- What an element has apart from its children. -/
structure Tag where
  name : String
  nsPrefix : Option String := none
  uri : Option String := none
  /-- The namespaces in force, by ascending prefix; none if nothing but the fixed ones is. -/
  scope : List (String × String) := []
  attributes : List (String × String) := []
deriving DecidableEq, Repr

/-- A part of an element's content. -/
inductive Node where
  | element (tag : Tag) (children : List Node)
  | text (text : String)
  | comment (text : String)
  | instruction (target : String) (data : Option String)
deriving Repr

/-- An element. -/
structure Element where
  tag : Tag
  children : List Node := []
deriving Repr

namespace Node

/-- The element that a node is. -/
def element? : Node → Option Element
  | element tag children => some ⟨tag, children⟩
  | _ => none

/-- Whether a node is an element of a name, whatever its prefix. -/
def isElement (name : String) : Node → Bool
  | element tag _ => tag.name = name
  | _ => false

/-- Whether a node is text. -/
def isText : Node → Bool
  | text _ => true
  | _ => false

end Node

namespace Element

/-- The element as a node. -/
def toNode (e : Element) : Node :=
  .element e.tag e.children

/-- The children that are elements of a name. -/
def childrenNamed (e : Element) (name : String) : List Element :=
  (e.children.filter (·.isElement name)).filterMap Node.element?

end Element

end ModelIR.Xml
