import ModelIR.Graph.Edit
import ModelIR.Graph.Pattern
import ModelIR.RunConfig.Basic

/-!
# Passes

A pass rewrites a graph. It either edits the graph as a whole, or it rewrites every match of a
pattern: the matches are found before the first of them is rewritten, and one of which a node has
gone by then is left out.
-/

namespace ModelIR

/-- What a pass needs of a graph and misses. -/
inductive Defect where
  | noConsumers (input : String)
  | notInGraph (node : NodeId)
  | noOutput (input : String)
  | other (reason : String)
deriving DecidableEq, Repr

/-- The wording of a defect. -/
def Defect.message : Defect → String
  | noConsumers input => s!"input '{input}' has no consumers"
  | notInGraph node => s!"input NodeIndex({node}) is not in the graph"
  | noOutput input => s!"input '{input}' has no output data"
  | other reason => reason

/-- Why a pass fails. -/
inductive PassError where
  | malformedGraph (defect : Defect)
  | unboundLabel (label : String)
  | unknownInput (name : String)
  | graph (error : GraphError)
deriving DecidableEq, Repr

/-- The wording of an error. -/
def PassError.message : PassError → String
  | malformedGraph defect => s!"malformed graph: {defect.message}"
  | unboundLabel label => s!"pattern label '{label}' is not bound in the match"
  | unknownInput name => s!"input '{name}' was not found among the graph parameters"
  | graph error => s!"graph error: {error.message}"

instance : MonadLift (Edit GraphError) (Edit PassError) :=
  ⟨ExceptT.adapt .graph⟩

/-- The node that a label is bound to; a label without a node is an error. -/
def Match.node (m : Match) (label : String) : Except PassError NodeId :=
  match m.node? label with
  | some i => .ok i
  | none => .error (.unboundLabel label)

/-- What a pass does to a graph. -/
inductive Action where
  /-- One edit of the whole graph. -/
  | edit (body : RunConfig → Edit PassError Unit)
  /-- An edit for every match of a pattern. -/
  | rewrite (pattern : Pattern) (replace : Match → RunConfig → Edit PassError Unit)

namespace Action

/-- Leaves the graph as it is. -/
def none : Action :=
  .edit fun _ => pure ()

/-- The pattern that is matched, if one is. -/
def pattern? : Action → Option Pattern
  | .edit _ => Option.none
  | .rewrite pattern _ => some pattern

end Action

/-- A named action and what is known of its place among others. -/
structure Pass where
  name : String
  enabled : Bool := true
  /-- The passes that come before this one. -/
  runAfter : List String := []
  /-- The passes that come after this one. -/
  runBefore : List String := []
  action : Action := .none

namespace Pass

/-- Rewrites the matches that are live when their turn comes; the first error ends the pass. -/
def rewriteAll (replace : Match → RunConfig → Edit PassError Unit) (config : RunConfig) :
    List Match → Edit PassError Unit
  | [] => pure ()
  | m :: rest => do
    if m.isLive (← get) then
      replace m config
    rewriteAll replace config rest

/-- Applies the pass to a graph. -/
def apply (pass : Pass) (config : RunConfig) : Edit PassError Unit :=
  match pass.action with
  | .edit body => body config
  | .rewrite pattern replace => do rewriteAll replace config (pattern.findMatches (← get))

end Pass

end ModelIR
