import ModelIR.Xml.Token

/-!
# Namespaces in force

A scope gives the prefixes in force their URIs; the empty prefix stands for names without one, and
the empty URI for no namespace. Two prefixes have a fixed URI and are in no scope.
-/

namespace ModelIR.Xml

/-- The prefixes in force with their URIs, by ascending prefix. -/
abbrev Scope := List (String × String)

namespace Scope

/-- The prefix that stands for XML itself. -/
def xmlPrefix : String := "xml"

/-- The prefix that declares prefixes. -/
def xmlnsPrefix : String := "xmlns"

/-- What the first of these stands for. -/
def xmlUri : String := "http://www.w3.org/XML/1998/namespace"

/-- What the second stands for. -/
def xmlnsUri : String := "http://www.w3.org/2000/xmlns/"

/-- The scope around a document. -/
def outermost : Scope := [("", "")]

/-- Gives a prefix a URI. -/
def bind (p uri : String) : Scope → Scope
  | [] => [(p, uri)]
  | (q, other) :: scope =>
    if p < q then (p, uri) :: (q, other) :: scope
    else if p = q then (p, uri) :: scope
    else (q, other) :: bind p uri scope

/-- The URI of a prefix. -/
def uri? (scope : Scope) (p : String) : Option String :=
  if p = xmlPrefix then some xmlUri
  else if p = xmlnsPrefix then some xmlnsUri
  else scope.lookup p

/-- The prefix that an attribute of a name declares. -/
def declared? (name : QName) : Option String :=
  match name.nsPrefix with
  | some p => if p = xmlnsPrefix then some name.name else none
  | none => if name.name = xmlnsPrefix then some "" else none

/-- The attribute that declares a prefix. -/
def declaring (p : String) : QName :=
  if p = "" then { name := xmlnsPrefix } else { nsPrefix := some xmlnsPrefix, name := p }

/-- Whether a prefix may stand for a URI. -/
def declarable (p uri : String) : Bool :=
  if p = "" then uri ∉ [xmlPrefix, xmlnsPrefix, xmlUri, xmlnsUri]
  else if p = xmlnsPrefix then false
  else if p = xmlPrefix then uri = xmlUri
  else uri ≠ ""

/-- Adds declarations to a scope; of two for one prefix the first counts. -/
def declare (scope : Scope) (declarations : List (String × String)) : Scope :=
  (declarations.filter (·.1 ≠ xmlPrefix)).foldr (fun d scope => scope.bind d.1 d.2) scope

end Scope

end ModelIR.Xml
