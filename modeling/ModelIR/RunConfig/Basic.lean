/-!
# Run configuration

What a run is told about preprocessing: one scale for all inputs, and means and scales for single
inputs. Inputs are kept in the order of their names, each name once.
-/

namespace ModelIR

/-- The preprocessing of one input. -/
structure MeanScale where
  mean : Option (List Float) := none
  scale : Option (List Float) := none
deriving Repr

/-- The preprocessing of a model. -/
structure RunConfig where
  /-- The scale of all inputs. -/
  scale : Option Float := none
  /-- The preprocessing of single inputs, by ascending name. -/
  inputs : List (String × MeanScale) := []
deriving Repr

/-- Enters a value under a name and keeps the names ascending. A value that the name had before is
replaced. -/
def insertByName {α : Type} (name : String) (value : α) : List (String × α) → List (String × α)
  | [] => [(name, value)]
  | (other, kept) :: rest =>
    if name < other then (name, value) :: (other, kept) :: rest
    else if name = other then (name, value) :: rest
    else (other, kept) :: insertByName name value rest

namespace RunConfig

/-- Sets the preprocessing of one input. -/
def setInput (config : RunConfig) (name : String) (values : MeanScale) : RunConfig :=
  { config with inputs := insertByName name values config.inputs }

/-- The scale of all inputs, unless it is one. -/
def effectiveScale (config : RunConfig) : Option Float :=
  config.scale.filter (· != 1.0)

end RunConfig

end ModelIR
