import ModelIR.Path

/-!
# The layout of a cache

A cache keeps each model at a fixed depth below the directories that tell its framework and its
precision. Counted from the end of a path, the file being the first segment, the framework is the
sixth segment and the precision the fourth; for a model in a directory called `optimized` they are
the eighth and the fifth.
-/

namespace ModelIR

/-- How a model lies in a cache. -/
inductive Layout where
  | plain
  | optimized
deriving DecidableEq, Repr

namespace Layout

/-- The directory of optimized models. -/
def marker : String := "optimized"

/-- The segment at a position, counted from the end, where the last segment is the first. -/
def fromEnd? (segments : List String) (position : Nat) : Option String :=
  segments.reverse[position - 1]?

/-- The layout that the segment before the file tells. -/
def detect (segments : List String) : Layout :=
  if fromEnd? segments 2 = some marker then optimized else plain

/-- Where the framework is found. -/
def frameworkSlot : Layout → Nat
  | plain => 6
  | optimized => 8

/-- Where the precision is found. -/
def precisionSlot : Layout → Nat
  | plain => 4
  | optimized => 5

/-- How many segments a path has to have. -/
def depth (layout : Layout) : Nat :=
  layout.frameworkSlot

/-- The word for the layout. -/
def name : Layout → String
  | plain => "plain"
  | optimized => "optimized"

end Layout

/-- A model file in a cache. -/
structure Model where
  fileName : String
  path : Path
  layout : Layout
  framework : String
  precision : String
deriving DecidableEq, Repr

/-- A path with fewer segments than its layout needs. -/
structure ShallowPath where
  path : Path
  layout : Layout
  /-- How many segments the path has. -/
  depth : Nat
deriving DecidableEq, Repr

/-- The wording of the error. -/
def ShallowPath.message (e : ShallowPath) : String :=
  s!"{e.path.toText} has {e.depth} path segments, the {e.layout.name} layout " ++
    s!"needs at least {e.layout.depth}"

/-- The part of a file's name before the first dot. -/
def baseName (fileName : String) : String :=
  String.ofList (fileName.toList.takeWhile (· ≠ '.'))

namespace Model

/-- Takes a path apart. -/
def ofPath (path : Path) : Except ShallowPath Model :=
  let segments := path.segments
  let layout := Layout.detect segments
  match Layout.fromEnd? segments 1, Layout.fromEnd? segments layout.precisionSlot,
    Layout.fromEnd? segments layout.frameworkSlot with
  | some fileName, some precision, some framework =>
    .ok { fileName, path, layout, framework, precision }
  | _, _, _ => .error ⟨path, layout, segments.length⟩

/-- The name of what the model computes. -/
def topology (model : Model) : String :=
  baseName model.fileName

end Model

end ModelIR
