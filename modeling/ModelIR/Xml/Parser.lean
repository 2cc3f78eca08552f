import ModelIR.Xml.Declaration
import ModelIR.Xml.Lexer
import ModelIR.Xml.Scope
import ModelIR.Xml.Tree

/-!
# Reading documents

The tokens of a document are put together by an assembly, which keeps the elements that are open.
Text outside of elements has to be blank. Within an element a run of blanks is dropped, unless it
follows verbatim text that is more than blanks.
-/

namespace ModelIR.Xml

/-- An element that is open. -/
structure Frame where
  name : QName
  tag : Tag
  scope : Scope
  /-- The children so far, the last one first. -/
  reversed : List Node := []
deriving Repr

/-- A document of which a part is read. -/
structure Assembly where
  /-- The elements that are open, the innermost first. -/
  frames : List Frame := []
  root : Option Element := none
  /-- Whether a document type is declared. -/
  typed : Bool := false
  /-- Whether the last token was verbatim text other than blanks. -/
  keepsBlanks : Bool := false
deriving Repr

/-- Gives an attribute its value, in its place if it has one. -/
def setAttribute (attributes : List (String × String)) (name value : String) :
    List (String × String) :=
  if (attributes.lookup name).isSome then
    attributes.map fun a => if a.1 = name then (name, value) else a
  else attributes ++ [(name, value)]

/-- The tag that a name and attributes make in a scope, and the scope within it. -/
def openTag? (outer : Scope) (name : QName) (attributes : List (QName × List Char)) :
    Option (Tag × Scope) := do
  let values : List (QName × String) := attributes.map fun a => (a.1, String.ofList a.2)
  let declarations := values.filterMap fun a => (Scope.declared? a.1).map (·, a.2)
  let others : List (QName × String) := values.filter fun a => (Scope.declared? a.1).isNone
  guard (declarations.all fun d => Scope.declarable d.1 d.2)
  guard (others.map (·.1)).Nodup
  let scope := outer.declare declarations
  guard (name.nsPrefix ∉ [some Scope.xmlPrefix, some Scope.xmlnsPrefix])
  guard (others.all fun a => a.1.nsPrefix.all fun p => (scope.uri? p).isSome)
  let uri ← scope.uri? (name.nsPrefix.getD "")
  return (
    { name := name.name
      nsPrefix := name.nsPrefix
      uri := if uri = "" then none else some uri
      scope := if scope = Scope.outermost then [] else scope
      attributes := others.foldl (fun l a => setAttribute l a.1.name a.2) [] },
    scope)

namespace Frame

/-- The element, closed. -/
def close (f : Frame) : Element :=
  ⟨f.tag, f.reversed.reverse⟩

end Frame

namespace Assembly

/-- The scope at the place that is reached. -/
def scope (a : Assembly) : Scope :=
  (a.frames.head?.map (·.scope)).getD Scope.outermost

/-- Puts a node where the reading is; outside of elements only the first element is kept. -/
def put (a : Assembly) (node : Node) : Assembly :=
  match a.frames with
  | f :: frames => { a with frames := { f with reversed := node :: f.reversed } :: frames }
  | [] => { a with root := a.root.or node.element? }

/-- Adds text, if there is any; blanks are dropped where they are not kept. -/
def putText (a : Assembly) (body : List Char) : Assembly :=
  if body = [] || body.all isBlank && !a.keepsBlanks then a
  else a.put (.text (String.ofList body))

/-- Adds a token. -/
def add (a : Assembly) : Token → Option Assembly
  | .opening name attributes closed => do
    let (tag, scope) ← openTag? a.scope name attributes
    let frame : Frame := { name, tag, scope }
    if closed then return a.put frame.close.toNode
    else return { a with frames := frame :: a.frames }
  | .closing name =>
    match a.frames with
    | [] => none
    | f :: frames => if f.name = name then some ({ a with frames }.put f.close.toNode) else none
  | .blanks body => if a.frames = [] then some a else some (a.putText body)
  | .text body => if a.frames = [] then none else some (a.putText body)
  | .verbatim body => if a.frames = [] then none else some (a.put (.text (String.ofList body)))
  | .comment body => some (a.put (.comment (String.ofList body)))
  | .instruction target data =>
    if target.toLower = Scope.xmlPrefix then none
    else some (a.put (.instruction target (data.map String.ofList)))
  | .doctype =>
    if a.frames = [] && a.root.isNone && !a.typed then some { a with typed := true } else none

/-- Whether blanks are kept behind a token. -/
def keepsBlanksBehind : Token → Bool
  | .verbatim body => !body.all isBlank
  | _ => false

/-- Adds a token, and notes whether blanks behind it are kept. -/
def step (a : Assembly) (token : Token) : Option Assembly :=
  (a.add token).map fun a => { a with keepsBlanks := keepsBlanksBehind token }

/-- The root of a document that is read to its end. -/
def finish (a : Assembly) : Option Element :=
  if a.frames = [] then a.root else none

end Assembly

/-- The tokens of a document, from its bytes. -/
def tokensOfBytes? (bytes : ByteArray) : Option (List Token) := do
  let (version, text) ← charsOfBytes? bytes
  let (lexemes, entities) ← lex version text
  Token.readAll { version, entities } lexemes

namespace Element

/-- Puts the tokens of a document together. -/
def ofTokens? (tokens : List Token) : Option Element := do
  (← tokens.foldlM Assembly.step {}).finish

/-- Reads a document from its bytes. -/
def parse (bytes : ByteArray) : Option Element := do
  ofTokens? (← tokensOfBytes? bytes)

end Element

end ModelIR.Xml
