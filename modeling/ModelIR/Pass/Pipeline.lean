import ModelIR.Pass.Builtin
import ModelIR.Pass.Precedence
import ModelIR.Text.Quoted

/-!
# Pipelines

A pipeline is a collection of passes with different names. A run applies every enabled pass once, in
an order that respects what each pass says of its place, and checks the graph after each.
-/

namespace ModelIR

/-- Why a pipeline refuses a pass or ends a run. -/
inductive PipelineError where
  | duplicatePass (pass : String)
  | orderingCycle (pass : String)
  | passFailed (pass : String) (error : PassError)
  | inconsistentGraph (pass : String) (error : GraphError)
deriving DecidableEq, Repr

/-- The wording of an error. -/
def PipelineError.message : PipelineError → String
  | duplicatePass pass => s!"duplicate pass: '{pass}'"
  | orderingCycle pass => s!"pass ordering contains a cycle through '{pass}'"
  | passFailed pass error => s!"pass '{pass}' failed: {error.message}"
  | inconsistentGraph pass error => s!"graph inconsistent after pass '{pass}': {error.message}"

/-- What a run did. -/
structure RunReport where
  passesRun : List String
  passesSkipped : List String
  nodesBefore : Nat
  nodesAfter : Nat
deriving DecidableEq, Repr

/-- Passes in the order of registration, under different names. -/
structure Pipeline where
  passes : List Pass
  nodup : (passes.map Pass.name).Nodup

namespace Pipeline

variable (p : Pipeline)

/-- The pipeline without passes. -/
def empty : Pipeline where
  passes := []
  nodup := .nil

/-- The pipeline of the middle stage. -/
def standard : Pipeline where
  passes :=
    [.preMiddleStart, .scaleInput, .addMeanScaleValues, .middleStart, .middleFinish]
  nodup := by decide

/-- The names in the order of registration. -/
def names : List String :=
  p.passes.map Pass.name

/-- A text that shows the names of the passes. -/
def describe : String :=
  "PassPipeline \x7b passes: [" ++ ", ".intercalate (p.names.map Quoted.encode) ++ "] \x7d"

/-- Whether a pass is registered. -/
def contains (name : String) : Bool :=
  p.names.contains name

/-- The registered pass of a name. -/
def pass? (name : String) : Option Pass :=
  p.passes.find? (·.name = name)

theorem nodup_concat_name {pass : Pass} (fresh : pass.name ∉ p.names) :
    ((p.passes ++ [pass]).map Pass.name).Nodup := by
  rw [List.map_append, List.nodup_append]
  refine ⟨p.nodup, List.pairwise_singleton _ _, fun name hname other hother heq => fresh ?_⟩
  obtain rfl : other = pass.name := List.mem_singleton.1 hother
  exact heq ▸ hname

/-- Adds a pass whose name is not taken. -/
def register (pass : Pass) : Except PipelineError Pipeline :=
  if taken : pass.name ∈ p.names then
    .error (.duplicatePass pass.name)
  else
    .ok { passes := p.passes ++ [pass], nodup := p.nodup_concat_name taken }

/-- What a pass says of its place among registered passes: first what it comes after, then what it
comes before. -/
def arcsOf (pass : Pass) : List (String × String) :=
  (pass.runAfter.filter p.contains).map (·, pass.name) ++
    (pass.runBefore.filter p.contains).map (pass.name, ·)

/-- The constraints of all passes, in the order of registration. -/
def precedence : Precedence String :=
  (p.passes.flatMap p.arcsOf).foldl Precedence.addArc { items := p.names }

/-- The order in which the passes run. Constraints that name a pass that is not registered are
left out. -/
def order : Except PipelineError (List String) :=
  match p.precedence.sort with
  | .ok names => .ok names
  | .error name => .error (.orderingCycle name)

/-- Applies one pass and checks the graph that it leaves. -/
def runPass (config : RunConfig) (pass : Pass) : Edit PipelineError Unit := do
  (pass.apply config).adapt (.passFailed pass.name)
  match (← get).validate with
  | .ok () => return
  | .error e => throw (.inconsistentGraph pass.name e)

/-- Applies every enabled pass once; the first failure ends the run. -/
def run (config : RunConfig) : Edit PipelineError RunReport := do
  let passes := (← Edit.ofExcept p.order).filterMap p.pass?
  let nodesBefore := (← get).nodeCount
  let (enabled, disabled) := passes.partition Pass.enabled
  enabled.forM (runPass config)
  return {
    passesRun := enabled.map Pass.name
    passesSkipped := disabled.map Pass.name
    nodesBefore
    nodesAfter := (← get).nodeCount }

end Pipeline

end ModelIR
