import ModelIR.Text.Lossy
import ModelIR.Text.Split

/-!
# Paths

A path is any sequence of bytes. Slashes part it into components, of which empty ones and single
dots say nothing. `normalize` takes a component and a double dot behind it for nothing as well;
double dots with nothing to undo stay, so they stand before all other components.
-/

namespace ModelIR

/-- A path. -/
structure Path where
  bytes : List UInt8
deriving DecidableEq, Repr

namespace Path

/-- The byte that parts components. -/
def slash : UInt8 := 0x2F

/-- The component that stands for the same directory. -/
def here : List UInt8 := [0x2E]

/-- The component that stands for the directory above. -/
def up : List UInt8 := [0x2E, 0x2E]

/-- The path that a text spells. -/
def ofString (text : String) : Path :=
  ⟨text.toUTF8.data.toList⟩

/-- The path as text. -/
def toText (p : Path) : String :=
  Lossy.decode p.bytes

/-- Whether the path starts at the root. -/
def isAbsolute (p : Path) : Bool :=
  p.bytes.head? = some slash

/-- Whether the path ends in a slash. -/
def endsInSlash (p : Path) : Bool :=
  p.bytes.getLast? = some slash

/-- The components that are not empty, dots among them. -/
def names (p : Path) : List (List UInt8) :=
  (splitOn slash p.bytes).filter (· ≠ [])

/-- The components that say something. -/
def components (p : Path) : List (List UInt8) :=
  p.names.filter (· ≠ here)

/-- A path with a name behind it, and a slash between them unless the path ends in one or is
empty. -/
def join (p : Path) (name : List UInt8) : Path :=
  if p.bytes.isEmpty || p.endsInSlash then ⟨p.bytes ++ name⟩
  else ⟨p.bytes ++ slash :: name⟩

/-- Goes from a normal form, last component first, along one more component. -/
def normalizeStep (reversed : List (List UInt8)) (component : List UInt8) : List (List UInt8) :=
  if component = up then
    match reversed with
    | last :: rest => if last = up then up :: reversed else rest
    | [] => [up]
  else
    component :: reversed

/-- The normal form of a list of components. -/
def normalize (components : List (List UInt8)) : List (List UInt8) :=
  (components.foldl normalizeStep []).reverse

/-- The normal form of a path, component by component, as text. -/
def segments (p : Path) : List String :=
  (normalize p.components).map Lossy.decode

end Path

end ModelIR
