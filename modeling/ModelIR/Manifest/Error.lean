import ModelIR.Cache.Scan

/-!
# Errors of generation

What may go wrong with a document, or with the scan of a cache.
-/

namespace ModelIR

/-- The name of the element that holds the records of a document. -/
def containerName : String := "models"

/-- The reasons for which a generation fails. -/
inductive ManifestError where
  /-- A document cannot be opened, made or put out to its end. -/
  | access (path : Path) (e : FileError)
  /-- A document is not XML. -/
  | malformed (path : Path)
  /-- A document cannot be put out. -/
  | unwritten (path : Path) (e : FileError)
  /-- A document has no place for records. -/
  | missingContainer (path : Path)
  | scan (e : ScanError)
deriving DecidableEq, Repr

/-- The wording of an error. -/
def ManifestError.message : ManifestError → String
  | access path e => s!"io error on {path.toText}: {e.message}"
  | malformed path => s!"malformed xml in {path.toText}"
  | unwritten path e => s!"failed to write {path.toText}: {e.message}"
  | missingContainer path => s!"{path.toText} has no '{containerName}' element"
  | scan e => e.message

end ModelIR
