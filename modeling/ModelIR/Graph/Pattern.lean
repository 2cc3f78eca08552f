import ModelIR.Graph.Basic

/-!
# Patterns

A pattern is a small graph of labelled matchers. A match gives every label a node of its own, so
that each node suits its matcher and every edge of the pattern is an edge of the graph.
-/

namespace ModelIR

/-- A condition on one node. -/
inductive NodeMatcher where
  | any
  | data
  | op (type : String)
deriving DecidableEq, Repr

/-- Whether a node meets the condition. -/
def NodeMatcher.accepts : NodeMatcher → Node → Bool
  | any, _ => true
  | data, node => node.kind = .data
  | op type, node => node.isOp type

/-- Labelled matchers, and edges between labels. -/
structure Pattern where
  nodes : List (String × NodeMatcher) := []
  edges : List (String × String) := []
deriving DecidableEq, Repr

/-- The nodes that labels are bound to. -/
structure Match where
  bindings : List (String × NodeId)
deriving DecidableEq, Repr

namespace Match

/-- Binds labels to nodes, one to one. A label that occurs twice keeps its last node. -/
def ofLists : List String → List NodeId → Match
  | label :: labels, node :: nodes =>
    let rest := (ofLists labels nodes).bindings
    ⟨if (rest.lookup label).isSome then rest else (label, node) :: rest⟩
  | _, _ => ⟨[]⟩

/-- The node that a label is bound to. -/
def node? (m : Match) (label : String) : Option NodeId :=
  m.bindings.lookup label

/-- Whether the slots of all bound nodes are in use. -/
def isLive (m : Match) (g : Graph) : Bool :=
  m.bindings.all fun binding => g.contains binding.2

end Match

namespace Pattern

variable (p : Pattern) (g : Graph)

/-- The labels in the order of their declaration. -/
def labels : List String :=
  p.nodes.map Prod.fst

/-- Where a label is declared first. -/
def position? (label : String) : Option Nat :=
  p.labels.findIdx? (· = label)

/-- Whether every edge joins declared labels. -/
def edgesAreLabelled : Bool :=
  p.edges.all fun e => (p.position? e.1).isSome && (p.position? e.2).isSome

/-- Whether the graph has every edge of the pattern whose two labels have a node already. -/
def edgesHold (assigned : List NodeId) : Bool :=
  p.edges.all fun e =>
    match (p.position? e.1).bind (assigned[·]?), (p.position? e.2).bind (assigned[·]?) with
    | some source, some target => g.hasEdge source target
    | _, _ => true

/-- The ways to give nodes to the matchers that are left, each node at most once. -/
def extensions (assigned : List NodeId) : List NodeMatcher → List (List NodeId)
  | [] => [assigned]
  | matcher :: matchers =>
    let candidates := g.nodeIds.filter fun i =>
      !assigned.contains i && (g.node? i).any matcher.accepts && p.edgesHold g (assigned ++ [i])
    candidates.flatMap fun i => extensions (assigned ++ [i]) matchers

/-- All matches, in ascending order of the nodes given to the labels. A pattern without nodes, or
with an edge at a label that is not declared, has none. -/
def findMatches : List Match :=
  if p.nodes.isEmpty || !p.edgesAreLabelled then []
  else (p.extensions g [] (p.nodes.map Prod.snd)).map (Match.ofLists p.labels)

end Pattern

end ModelIR
