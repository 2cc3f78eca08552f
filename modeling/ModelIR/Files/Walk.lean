import ModelIR.Files.Tree

/-!
# Walking a tree

A walk goes through a directory and what is below it, depth first and in every directory by
ascending name. Links are not followed. A directory is listed only if the path to it is not too
long.
-/

namespace ModelIR

/-- Orders what belongs to names by the names. -/
def sortByName {α : Type} (l : List (Name × α)) : List (Name × α) :=
  l.mergeSort fun a b => decide (a.1 ≤ b.1)

namespace Entry

mutual

/-- What is met at an entry with a path and a name. -/
def visits (path : Path) (name : Name) : Entry → List Visit
  | dir entries =>
    if path.bytes.length > maxPathLength then [.unlistable path]
    else (sortByName (visitsByName path entries)).flatMap (·.2)
  | file _ => [.file path name]
  | link _ => [.file path name]

/-- What is met at each entry of a directory with a path. -/
def visitsByName (path : Path) : List (Name × Entry) → List (Name × List Visit)
  | [] => []
  | (name, e) :: entries => (name, e.visits (path.join name) name) :: visitsByName path entries

end

end Entry

namespace FileTree

variable (t : FileTree)

/-- What is met below a path. -/
def visits (p : Path) : List Visit :=
  match t.resolve p with
  | .ok (.found _ (.dir entries)) => (Entry.dir entries).visits p []
  | _ => []

/-- Whether a path leads to anything. -/
def present (p : Path) : Bool :=
  match t.resolve p with
  | .ok (.found ..) => true
  | _ => false

end FileTree

end ModelIR
