import ModelIR.Cache.Layout

/-!
# Choosing models

A list that is empty admits everything. A name that is both to be included and to be excluded is
excluded.
-/

namespace ModelIR

/-- The models that are asked for. -/
structure Filter where
  topology : List String := []
  notTopology : List String := []
  framework : List String := []
  precision : List String := []
deriving DecidableEq, Repr

namespace Filter

variable (f : Filter)

/-- Whether a list is empty or holds the value. -/
def allows (list : List String) (value : String) : Bool :=
  list.isEmpty || list.contains value

/-- Whether models of a name are asked for. -/
def admitsTopology (name : String) : Bool :=
  allows f.topology name && !f.notTopology.contains name

/-- Whether models of a framework and a precision are asked for. -/
def admitsKind (framework precision : String) : Bool :=
  allows f.framework framework && allows f.precision precision

/-- Whether a model's framework and precision are asked for. -/
def admitsModel (model : Model) : Bool :=
  f.admitsKind model.framework model.precision

/-- Whether everything is asked for. -/
def isEmpty : Bool :=
  f.topology.isEmpty && f.notTopology.isEmpty && f.framework.isEmpty && f.precision.isEmpty

end Filter

end ModelIR
