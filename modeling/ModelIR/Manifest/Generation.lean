import ModelIR.Manifest.Document

/-!
# Generating records

A generation loads both documents and scans the cache; then it adds the records of the models found,
and saves the documents. The first thing that fails ends it, so nothing is written and no random
word is used unless both documents load and the scan succeeds.
-/

namespace ModelIR

/-- What to generate. -/
structure Job where
  testConf : Path
  refsConf : Path
  irCacheDir : Path
  filter : Filter := {}
deriving DecidableEq, Repr

/-- What a generation has done. -/
structure GenerationReport where
  filesVisited : Nat := 0
  models : Nat := 0
  modelRecords : Nat := 0
  referenceRecords : Nat := 0
deriving DecidableEq, Repr

/-- The two documents of a generation, and the report so far. -/
structure Manifests where
  tests : Document
  references : Document
  report : GenerationReport := {}

namespace Manifests

/-- Adds the records of a model. -/
def addModel (d : Manifests) (model : Model) : StateM WordSource Manifests := do
  let records ← ReferenceRecord.forAllTests model
  return {
    tests := d.tests.append (ModelRecord.ofModel model).toElement
    references := records.foldl (fun refs r => refs.append r.toElement) d.references
    report :=
      { d.report with
        modelRecords := d.report.modelRecords + 1
        referenceRecords := d.report.referenceRecords + records.length } }

/-- Adds the records of models, one after the other. -/
def addModels (d : Manifests) (models : List Model) : StateM WordSource Manifests :=
  models.foldlM addModel { d with report := { models := models.length } }

end Manifests

namespace Job

variable {m : Type → Type} [Monad m]

/-- Does something with files while a source of words stands by. -/
def attempt {α : Type} (action : m (Except ManifestError α)) :
    ExceptT ManifestError (StateT WordSource m) α :=
  ExceptT.mk (StateT.lift action)

/-- Does a job. -/
def run (files : Files m) (job : Job) :
    ExceptT ManifestError (StateT WordSource m) GenerationReport := do
  let tests ← attempt (Document.load files job.testConf .tests)
  let references ← attempt (Document.load files job.refsConf .references)
  let scan ← attempt do return (← Scan.run files job.filter job.irCacheDir).mapError .scan
  let d ← modifyGet (Manifests.addModels { tests, references } scan.models).run
  attempt (d.tests.save files)
  attempt (d.references.save files)
  return { d.report with filesVisited := scan.filesVisited }

end Job

end ModelIR
