/-!
# Model graphs

A model is a directed graph of operations and of the tensors that flow between them. A node is known
by its index, which is the number of the slot that holds it, and by its name, which an index of
names leads back to. An edge carries the number of the port it uses on its operation's side.

The edges stand newest first, so every list of a node's edges is read in that order, and
`producer?` is the source of the edge that was added last. A vacated slot is used again, the one
vacated last before all others.
-/

namespace ModelIR

/-- The number of a node's slot. -/
abbrev NodeId := Nat

/-- The number of an operation's input or output. -/
abbrev Port := Nat

/-- What a node stands for. -/
inductive NodeKind where
  /-- An operation. -/
  | op
  /-- A tensor that flows between operations. -/
  | data
deriving DecidableEq, Repr

namespace OpType

/-! The types of operation that the passes know by name. -/

/-- An input of the model. -/
def parameter : String := "Parameter"

/-- A constant. -/
def const : String := "Const"

/-- An elementwise product. -/
def mul : String := "Mul"

/-- An elementwise sum. -/
def add : String := "Add"

/-- An output of the model. -/
def result : String := "Result"

end OpType

/-- A node: its name, what it stands for, and what is known of it. -/
structure Node where
  name : String
  kind : NodeKind
  /-- The type of the operation. -/
  op : Option String := none
  /-- The constant that the node holds. -/
  value : Option (List Float) := none
  /-- The extents of the tensor. -/
  shape : Option (List Nat) := none
deriving Repr

namespace Node

/-- An operation of the given type. -/
def ofOp (name type : String) : Node :=
  { name, kind := .op, op := some type }

/-- A tensor of which only the name is known. -/
def ofData (name : String) : Node :=
  { name, kind := .data }

/-- Whether the node is an operation of the given type. -/
def isOp (node : Node) (type : String) : Bool :=
  node.kind = .op && node.op = some type

end Node

/-- A directed edge and the port that it uses on its operation's side. -/
structure Edge where
  source : NodeId
  target : NodeId
  port : Port
deriving DecidableEq, Repr

/-- Slots with the nodes in them, the edges, and the index of names. -/
structure Graph where
  slots : List (Option Node) := []
  /-- The empty slots, the one vacated last at the head. -/
  vacated : List NodeId := []
  /-- The edges, the one added last at the head. -/
  edges : List Edge := []
  /-- Where the node of a name was put. -/
  names : List (String × NodeId) := []
deriving Repr

/-- Why a graph refuses a change, or is not a model. -/
inductive GraphError where
  | nodeNotFound (node : NodeId)
  | duplicateName (name : String)
  /-- Both ends of an edge are of one kind. -/
  | invalidEdge (source target : String)
  | multipleProducers (data : String) (producers : Nat)
  | duplicateInputPort (op : String) (port : Port)
deriving DecidableEq, Repr

namespace GraphError

/-- The wording of an error. -/
def message : GraphError → String
  | nodeNotFound node => s!"node not found: NodeIndex({node})"
  | duplicateName name => s!"duplicate node name: '{name}'"
  | invalidEdge source target =>
    s!"invalid edge '{source}' -> '{target}': edges must join an op and a data node"
  | multipleProducers data producers => s!"data node '{data}' has {producers} producers"
  | duplicateInputPort op port => s!"op '{op}' has more than one input on port {port}"

end GraphError

namespace Graph

variable (g : Graph)

/-- The graph without nodes. -/
def empty : Graph := {}

/-- The node in a slot, if the slot is in use. -/
def node? (i : NodeId) : Option Node :=
  g.slots[i]?.join

/-- Whether a slot is in use. -/
def contains (i : NodeId) : Bool :=
  (g.node? i).isSome

/-- The slots in use, in ascending order. -/
def nodeIds : List NodeId :=
  (List.range g.slots.length).filter g.contains

/-- How many nodes there are. -/
def nodeCount : Nat :=
  g.nodeIds.length

/-- How many edges there are. -/
def edgeCount : Nat :=
  g.edges.length

/-- The node that was put in under a name. -/
def find? (name : String) : Option NodeId :=
  g.names.lookup name

/-- Whether a new node may take the name. -/
def isFree (name : String) : Bool :=
  (g.find? name).isNone

/-- The operations of a type, in ascending order. -/
def opsOfType (type : String) : List NodeId :=
  g.nodeIds.filter fun i => (g.node? i).any (·.isOp type)

/-- The edges that leave a node, newest first. -/
def outgoing (i : NodeId) : List Edge :=
  g.edges.filter (·.source = i)

/-- The edges that enter a node, newest first. -/
def incoming (i : NodeId) : List Edge :=
  g.edges.filter (·.target = i)

/-- Ports in ascending order, and the nodes on one port in ascending order. -/
def portOrder (a b : Port × NodeId) : Bool :=
  a.1 < b.1 || (a.1 = b.1 && a.2 ≤ b.2)

/-- The nodes that a node leads to, each with the port of its edge, by port and then by index. -/
def consumers (i : NodeId) : List (NodeId × Port) :=
  (((g.outgoing i).map fun e => (e.port, e.target)).mergeSort portOrder).map Prod.swap

/-- The nodes that a node leads to, by port and then by index. -/
def outNodes (i : NodeId) : List NodeId :=
  (g.consumers i).map Prod.fst

/-- The nodes that lead to a node, by port and then by index. -/
def inNodes (i : NodeId) : List NodeId :=
  (((g.incoming i).map fun e => (e.port, e.source)).mergeSort portOrder).map Prod.snd

/-- The source of the newest edge that enters a node. -/
def producer? (i : NodeId) : Option NodeId :=
  (g.incoming i).head?.map Edge.source

/-- Whether some edge leads from one node to the other. -/
def hasEdge (source target : NodeId) : Bool :=
  g.edges.any fun e => e.source = source && e.target = target

/-- A name with a positive number behind an underscore. -/
def numbered (base : String) (n : Nat) : String :=
  s!"{base}_{n + 1}"

/-- The name itself if it is free, else the name with the least positive number behind an underscore
that makes it free. One of the first numbers has to do, as many of them as there are names. -/
def uniqueName (base : String) : String :=
  if g.isFree base then base
  else (((List.range g.names.length).map (numbered base)).find? g.isFree).getD base

end Graph

/-- The first entry of a list that occurred before. -/
def firstRepeat? {α : Type} [DecidableEq α] (seen : List α) : List α → Option α
  | [] => none
  | a :: rest => if a ∈ seen then some a else firstRepeat? (a :: seen) rest

namespace Graph

variable (g : Graph)

/-- What is wrong with a node: a tensor may have one producer, an operation one input per port. -/
def defectAt? (i : NodeId) : Option GraphError := do
  let node ← g.node? i
  match node.kind with
  | .data =>
    let producers := (g.incoming i).length
    if producers > 1 then some (.multipleProducers node.name producers) else none
  | .op => (firstRepeat? [] ((g.incoming i).map Edge.port)).map (.duplicateInputPort node.name ·)

/-- What is wrong with the first defective node. -/
def defect? : Option GraphError :=
  g.nodeIds.findSome? g.defectAt?

/-- Accepts a graph without defects. -/
def validate : Except GraphError Unit :=
  match g.defect? with
  | none => .ok ()
  | some e => .error e

end Graph

end ModelIR
