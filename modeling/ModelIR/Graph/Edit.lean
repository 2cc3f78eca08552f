import ModelIR.Graph.Basic

/-!
# Changing a graph

An edit is a change that may fail. It leaves a graph in either case, and nothing that it did before
it failed is taken back.
-/

namespace ModelIR

/-- A change of a graph that gives an answer or fails. -/
abbrev Edit (ε α : Type) := ExceptT ε (StateM Graph) α

namespace Edit

variable {ε α : Type}

/-- The answer or the error, and the graph that is left. -/
def runOn (edit : Edit ε α) (g : Graph) : Except ε α × Graph :=
  edit.run.run g

/-- An edit that changes nothing. -/
def ofExcept (answer : Except ε α) : Edit ε α :=
  ExceptT.mk (pure answer)

end Edit

namespace Graph

/-- Puts a node into the slot vacated last, or into a new slot, and enters its name. -/
def insert (g : Graph) (node : Node) : NodeId × Graph :=
  match g.vacated with
  | [] =>
    let i := g.slots.length
    (i, { g with slots := g.slots ++ [some node], names := (node.name, i) :: g.names })
  | i :: vacated =>
    (i, { g with slots := g.slots.set i (some node), vacated, names := (node.name, i) :: g.names })

/-- Takes a node out, with its edges and the entry under its name. -/
def remove (g : Graph) (i : NodeId) : Option Node × Graph :=
  match g.node? i with
  | none => (none, g)
  | some node =>
    (some node,
      { slots := g.slots.set i none
        vacated := i :: g.vacated
        edges := g.edges.filter fun e => e.source ≠ i && e.target ≠ i
        names := g.names.filter fun entry => entry.1 ≠ node.name })

/-- Changes a node in place. A name changed this way is not entered into the index of names. -/
def modifyNode (g : Graph) (i : NodeId) (change : Node → Node) : Graph :=
  { g with slots := g.slots.modify i (Option.map change) }

/-- Adds an edge. -/
def link (g : Graph) (source target : NodeId) (port : Port) : Graph :=
  { g with edges := ⟨source, target, port⟩ :: g.edges }

/-- Moves the edges that leave one node over to another. They are moved one at a time, the newest
first, and each becomes the newest edge of the graph as it is moved. -/
def moveOutgoing (g : Graph) (source target : NodeId) : Graph :=
  let moved := (g.outgoing source).map fun e => { e with source := target }
  { g with edges := moved.reverse ++ g.edges.filter (·.source ≠ source) }

/-- Adds a node under a name that is free. -/
def addNode (node : Node) : Edit GraphError NodeId := do
  let g ← get
  if g.isFree node.name then
    let (i, g) := g.insert node
    set g
    return i
  else
    throw (.duplicateName node.name)

/-- Adds an operation. -/
def addOp (name type : String) : Edit GraphError NodeId :=
  addNode (.ofOp name type)

/-- Adds a tensor. -/
def addData (name : String) : Edit GraphError NodeId :=
  addNode (.ofData name)

/-- Joins an operation and a tensor, in either direction. -/
def connect (source target : NodeId) (port : Port) : Edit GraphError Unit := do
  let g ← get
  let some s := g.node? source | throw (.nodeNotFound source)
  let some t := g.node? target | throw (.nodeNotFound target)
  if s.kind = t.kind then
    throw (.invalidEdge s.name t.name)
  set (g.link source target port)

/-- Adds a constant: the operation, and the tensor that it writes on its first port. The name of the
tensor is chosen before the operation is in the graph. -/
def addConst (name : String) (values : List Float) : Edit GraphError (NodeId × NodeId) := do
  let dataName := (← get).uniqueName (name ++ "/data")
  let op ← addNode { Node.ofOp name OpType.const with value := some values }
  let data ← addNode
    { Node.ofData dataName with value := some values, shape := some [values.length] }
  connect op data 0
  return (op, data)

/-- Moves every consumer of one node over to another, on the port that it reads now. -/
def rerouteConsumers (source target : NodeId) : Edit GraphError Unit := do
  let g ← get
  if !g.contains source then
    throw (.nodeNotFound source)
  if !g.contains target then
    throw (.nodeNotFound target)
  set (g.moveOutgoing source target)

end Graph

end ModelIR
