import ModelIR.Manifest.Error
import ModelIR.Manifest.Record
import ModelIR.Xml.Parser
import ModelIR.Xml.Printer

/-!
# Documents

A document holds records, and keeps all else as it is. The records are in the first element of the
root that is called `models`. A document of models under test may do without it: then every element
of the root that is called `device` holds all records.
-/

namespace ModelIR

open Xml

/-- The name of the elements that hold the records for one device each. -/
def deviceName : String := "device"

/-- What a document is about. -/
inductive DocumentKind where
  | tests
  | references
deriving DecidableEq, Repr

/-- The place of the records in a document. -/
inductive Container where
  | models
  | devices
deriving DecidableEq, Repr

/-- The word for a place. -/
def Container.name : Container → String
  | models => "models"
  | devices => "devices"

/-- The place of the records in a document of a kind, by its root. -/
def Container.ofRoot? (root : Element) (kind : DocumentKind) : Option Container :=
  if root.children.any (·.isElement containerName) then some models
  else if kind = .tests && root.children.any (·.isElement deviceName) then some devices
  else none

/-- A document, and the path where it is kept. -/
structure Document where
  path : Path
  root : Element
  container : Container
deriving Repr

namespace Document

/-- The document with a root. -/
def ofElement (path : Path) (root : Element) (kind : DocumentKind) :
    Except ManifestError Document :=
  match Container.ofRoot? root kind with
  | some container => .ok { path, root, container }
  | none => .error (.missingContainer path)

/-- The document that the bytes of a file make. -/
def ofBytes (path : Path) (bytes : ByteArray) (kind : DocumentKind) :
    Except ManifestError Document :=
  match Element.parse bytes with
  | some root => ofElement path root kind
  | none => .error (.malformed path)

/-- The document that is opened. -/
def ofOpened (path : Path) (kind : DocumentKind) :
    Except FileError Opened → Except ManifestError Document
  | .ok (.file bytes) => ofBytes path bytes kind
  | .ok .directory => .error (.malformed path)
  | .error e => .error (.access path e)

/-- Puts a node behind the children of a node that is an element. -/
def pushInto (child : Xml.Node) : Xml.Node → Xml.Node
  | .element tag children => .element tag (children ++ [child])
  | node => node

/-- Puts a node into the first element of a name. -/
def pushIntoFirst (name : String) (child : Xml.Node) : List Xml.Node → List Xml.Node
  | [] => []
  | node :: nodes =>
    if node.isElement name then pushInto child node :: nodes
    else node :: pushIntoFirst name child nodes

/-- Puts a node into every element of a name. -/
def pushIntoAll (name : String) (child : Xml.Node) (nodes : List Xml.Node) : List Xml.Node :=
  nodes.map fun node => if node.isElement name then pushInto child node else node

/-- Adds a record. -/
def append (d : Document) (record : Element) : Document :=
  let push := match d.container with
    | .models => pushIntoFirst containerName
    | .devices => pushIntoAll deviceName
  { d with root := { d.root with children := push record.toNode d.root.children } }

/-- The elements that hold records. -/
def holders (d : Document) : List Element :=
  match d.container with
  | .models => (d.root.childrenNamed containerName).take 1
  | .devices => d.root.childrenNamed deviceName

/-- How many records there are, those for different devices counted apart. -/
def modelCount (d : Document) : Nat :=
  (d.holders.flatMap (·.children)).countP (·.isElement recordName)

/-- The bytes of a document. -/
def bytes (d : Document) : ByteArray :=
  d.root.print.toUTF8

/-- The error that a fault of saving is for a document. -/
def saveError (path : Path) : SaveFault → ManifestError
  | .create e => .access path e
  | .emit e => .unwritten path e
  | .flush e => .access path e

variable {m : Type → Type} [Monad m] (files : Files m)

/-- Loads a document of a kind. -/
def load (path : Path) (kind : DocumentKind) : m (Except ManifestError Document) :=
  return ofOpened path kind (← files.opened path)

/-- Saves a document. -/
def save (d : Document) : m (Except ManifestError Unit) :=
  return (← files.saved d.path d.bytes).mapError (saveError d.path)

end Document

end ModelIR
