import ModelIR.Text.Blank
import ModelIR.Xml.Scope
import ModelIR.Xml.Tree

/-!
# Writing documents

A document is written with its XML declaration, and two spaces of indentation for every level. Text
is written where it stands, and nothing is put next to it: markup begins a line of its own unless it
follows text, and a closing tag does so if markup stands before it.
-/

namespace ModelIR.Xml

/-- The beginning of every document that is written. -/
def header : String := "<?xml version=\"1.0\" encoding=\"UTF-8\"?>"

/-- A new line at a depth. -/
def indentation (depth : Nat) : List Char :=
  '\n' :: List.replicate (2 * depth) ' '

/-- The body of a comment, with a space at every end that is not white already. -/
def padded (body : List Char) : List Char :=
  (if body.head?.any isWhiteSpace then [] else [' ']) ++ body ++
    (if body.getLast?.any isWhiteSpace then [] else [' '])

namespace Tag

variable (tag : Tag)

/-- The name as it is written. -/
def qname : QName :=
  { nsPrefix := tag.nsPrefix, name := tag.name }

/-- The bindings of the tag that no element around it declares. A binding is declared once on the
way from the root, even where an element in between gives the prefix another URI. -/
def undeclared (declared : List (String × String)) : List (String × String) :=
  tag.scope.filter (· ∉ declared)

/-- The bindings that are declared within the element. -/
def declaredWithin (declared : List (String × String)) : List (String × String) :=
  tag.undeclared declared ++ declared

/-- The attributes that are written, with the declarations first. That no namespace is the default
is not written. -/
def written (declared : List (String × String)) : List (QName × List Char) :=
  ((tag.undeclared declared).filter (· ≠ ("", ""))).map
      (fun (p, uri) => (Scope.declaring p, uri.toList)) ++
    tag.attributes.map fun (name, value) => ({ name := name }, value.toList)

end Tag

namespace Node

/-- Whether the last of some nodes is markup. -/
def endsInMarkup (nodes : List Node) : Bool :=
  nodes.getLast?.any (!·.isText)

mutual

/-- The tokens of a node, with the bindings that the elements around it declare. -/
def tokens (declared : List (String × String)) (depth : Nat) : Node → List Token
  | element tag children =>
    if children.isEmpty then [.opening tag.qname (tag.written declared) true]
    else
      .opening tag.qname (tag.written declared) false ::
        (childTokens (tag.declaredWithin declared) (depth + 1) false children ++
          (if endsInMarkup children then [.blanks (indentation depth)] else []) ++
          [.closing tag.qname])
  | text t => [.text t.toList]
  | comment t => [.comment (padded t.toList)]
  | instruction target data => [.instruction target (data.map String.toList)]

/-- The tokens of nodes that follow each other; `afterText` tells whether text stands before them.
-/
def childTokens (declared : List (String × String)) (depth : Nat) (afterText : Bool) :
    List Node → List Token
  | [] => []
  | node :: nodes =>
    (if afterText || node.isText then [] else [.blanks (indentation depth)]) ++
      node.tokens declared depth ++ childTokens declared depth node.isText nodes

end

end Node

namespace Element

/-- The tokens of a document behind its XML declaration. -/
def documentTokens (root : Element) : List Token :=
  .blanks (indentation 0) :: root.toNode.tokens [] 0

/-- The document with a root. -/
def print (root : Element) : String :=
  String.ofList (header.toList ++ root.documentTokens.flatMap Token.write)

end Element

end ModelIR.Xml
