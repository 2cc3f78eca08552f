import ModelIR.Pass.Splice

/-!
# The passes of the middle stage

Three markers divide the stage, and two passes add the preprocessing of the inputs between the first
marker and the second: one scale for all inputs, then the means and scales of single inputs. What is
spliced last stands closest to the input, so an input's mean is subtracted before its own scale is
applied, and the scale of all inputs is applied last.
-/

namespace ModelIR.Pass

/-- Marks where rewriting begins. -/
def preMiddleStart : Pass :=
  { name := "PreMiddleStart" }

/-- Marks where the inputs are done. -/
def middleStart : Pass :=
  { name := "MiddleStart", runAfter := [preMiddleStart.name] }

/-- Marks where rewriting ends. -/
def middleFinish : Pass :=
  { name := "MiddleFinish", runAfter := [middleStart.name] }

/-- A parameter and a tensor that it writes. -/
def inputPattern : Pattern where
  nodes := [("placeholder", .op OpType.parameter), ("data", .data)]
  edges := [("placeholder", "data")]

/-- Scales one matched input by the scale of all inputs. Something has to read the input. -/
def scaleMatch (m : Match) (config : RunConfig) : Edit PassError Unit := do
  let some scale := config.effectiveScale | return
  let placeholder ← Edit.ofExcept (m.node "placeholder")
  let data ← Edit.ofExcept (m.node "data")
  let g ← get
  if (g.consumers data).isEmpty then
    let name := ((g.node? placeholder).map Node.name).getD s!"NodeIndex({placeholder})"
    throw (.malformedGraph (.noConsumers name))
  discard (Splice.applyScale placeholder [scale])

/-- The parameter of a name. -/
def parameter (g : Graph) (name : String) : Except PassError NodeId :=
  match (g.find? name).filter fun i => (g.node? i).any (·.isOp OpType.parameter) with
  | some i => .ok i
  | none => .error (.unknownInput name)

/-- Adds the scale of one input, and then its mean before the scale. -/
def normalizeInput (name : String) (values : MeanScale) : Edit PassError Unit := do
  let input ← Edit.ofExcept (parameter (← get) name)
  values.scale.forM fun scale => discard (Splice.applyScale input scale)
  values.mean.forM fun mean => discard (Splice.applyMean input mean)

/-- Adds the means and scales of single inputs, by ascending name. -/
def addMeanScaleValues : Pass where
  name := "AddMeanScaleValues"
  runBefore := [middleStart.name]
  action := .edit fun config => config.inputs.forM fun input => normalizeInput input.1 input.2

/-- Applies the scale of all inputs. -/
def scaleInput : Pass where
  name := "ScaleInput"
  runAfter := [preMiddleStart.name]
  runBefore := [addMeanScaleValues.name]
  action := .rewrite inputPattern scaleMatch

end ModelIR.Pass
