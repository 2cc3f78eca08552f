import ModelIR.Text.Blank
import ModelIR.Text.Split

/-!
# Lists written with commas

The items stand between commas, with white space around them, and blank items do not count.
-/

namespace ModelIR.CommaList

/-- The items as lists of characters. -/
def items (text : List Char) : List (List Char) :=
  ((splitOn ',' text).map trim).filter (· ≠ [])

/-- The items of a list. -/
def parse (text : String) : List String :=
  (items text.toList).map String.ofList

end ModelIR.CommaList
