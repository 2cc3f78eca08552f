import ModelIR.Json.Reader
import ModelIR.RunConfig.Basic

/-!
# Reading a run configuration

A configuration is written as JSON: an object with the members `scale` and `mean_scale_values`, of
which the second is an object that has for the name of an input an object with the members `mean`
and `scale`. Every member may be left out.
-/

namespace ModelIR

open Json

namespace MeanScale

/-- The members of the preprocessing of one input. -/
def fields : List (Member MeanScale) :=
  [⟨"mean", fun values => return { values with mean := ← readOptional (readArray readFloat) }⟩,
    ⟨"scale", fun values => return { values with scale := ← readOptional (readArray readFloat) }⟩]

end MeanScale

namespace RunConfig

/-- The preprocessing of one input, as a member of an object. Of two members of one name the later
one counts. -/
def readInput (inputs : List (String × MeanScale)) (name : String) :
    Reader (List (String × MeanScale)) := do
  readColon
  return insertByName name (← readRecord MeanScale.fields {}) inputs

/-- The members of a configuration. -/
def fields : List (Member RunConfig) :=
  [⟨"scale", fun config => return { config with scale := ← readOptional readFloat }⟩,
    ⟨"mean_scale_values",
      fun config => return { config with inputs := ← readObject readInput [] }⟩]

/-- Reads a configuration from a text. -/
def parse (text : List Char) : Except Fault RunConfig :=
  Json.parse (readRecord fields {}) text

end RunConfig

end ModelIR
