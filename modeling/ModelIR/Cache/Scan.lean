import ModelIR.Cache.Filter
import ModelIR.Files.Basic

/-!
# Scanning a cache

A scan goes through what is below a directory and keeps the models that are asked for. The path of a
file is looked at only if its name is asked for, and a path that is too short ends the scan.
-/

namespace ModelIR

/-- The end of the names of model files. -/
def modelExtension : String := ".xml"

/-- The reasons for which a scan fails. -/
inductive ScanError where
  | missing (dir : Path)
  | unlistable (dir : Path)
  | shallow (e : ShallowPath)
deriving DecidableEq, Repr

/-- The wording of an error. -/
def ScanError.message : ScanError → String
  | missing dir => s!"directory 'ir_cache_dir' was not found: {dir.toText}"
  | unlistable dir => s!"failed to walk ir cache: {dir.toText}"
  | shallow e => e.message

/-- What a scan finds. -/
structure Scan where
  models : List Model := []
  /-- How many files were visited. -/
  filesVisited : Nat := 0
deriving DecidableEq, Repr

namespace Scan

/-- Whether a file of a name is a model that is asked for. -/
def wants (f : Filter) (name : String) : Bool :=
  modelExtension.toList.isSuffixOf name.toList && f.admitsTopology (baseName name)

/-- The model of a file, if it is asked for. -/
def modelOf (f : Filter) : Visit → Except ScanError (Option Model)
  | .unlistable dir => .error (.unlistable dir)
  | .file path name =>
    if wants f (Lossy.decode name) then
      match Model.ofPath path with
      | .ok model => .ok (if f.admitsModel model then some model else none)
      | .error e => .error (.shallow e)
    else .ok none

/-- What a scan finds among what it visits. -/
def ofVisits (f : Filter) (visits : List Visit) : Except ScanError Scan := do
  let found ← visits.mapM (modelOf f)
  return { models := found.filterMap id, filesVisited := visits.length }

/-- Scans a directory. -/
def run {m : Type → Type} [Monad m] (files : Files m) (f : Filter) (dir : Path) :
    m (Except ScanError Scan) := do
  if ← files.present dir then return ofVisits f (← files.visits dir)
  else return .error (.missing dir)

end Scan

end ModelIR
