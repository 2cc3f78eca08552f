import ModelIR.Pass.Basic

/-!
# Splicing behind an input

A splice puts a binary operation with a constant operand between an input and everything that reads
it: the operation reads the input's tensor on its first port and the constant on its second, and its
own output takes over the tensor's consumers.
-/

namespace ModelIR.Splice

/-- Splices an operation behind the first output of a node. The names of what is added are the name
of the node with a suffix, and what makes them free. -/
def insertAfter (input : NodeId) (type suffix : String) (values : List Float) :
    Edit PassError NodeId := do
  let g ← get
  let some node := g.node? input | throw (.malformedGraph (.notInGraph input))
  let some data := (g.outNodes input).head? | throw (.malformedGraph (.noOutput node.name))
  let opName := g.uniqueName s!"{node.name}/{suffix}"
  let constName := g.uniqueName s!"{opName}/value"
  let (_, constData) ← Graph.addConst constName values
  let op ← Graph.addOp opName type
  let outName := (← get).uniqueName s!"{opName}/out"
  let out ← Graph.addData outName
  modify fun g => g.modifyNode out fun fresh =>
    { fresh with shape := (g.node? data).bind Node.shape }
  Graph.rerouteConsumers data out
  Graph.connect data op 0
  Graph.connect constData op 1
  Graph.connect op out 0
  return op

/-- Multiplies what an input gives by a constant. Nothing is spliced for a constant of ones. -/
def applyScale (input : NodeId) (scale : List Float) : Edit PassError (Option NodeId) :=
  if scale.all (· == 1.0) then pure none
  else some <$> insertAfter input OpType.mul "scale" scale

/-- Subtracts a constant from what an input gives, as the sum with its negation. Nothing is spliced
for a constant of zeros. -/
def applyMean (input : NodeId) (mean : List Float) : Edit PassError (Option NodeId) :=
  if mean.all (· == 0.0) then pure none
  else some <$> insertAfter input OpType.add "mean" (mean.map (- ·))

end ModelIR.Splice
