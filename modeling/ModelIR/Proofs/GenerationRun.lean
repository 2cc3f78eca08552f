import ModelIR.Manifest.Generation
import ModelIR.Proofs.FileViews
import ModelIR.Proofs.PlainRecords

/-!
# One generation

What a generation does to a tree of files, step by step (`Job.runOn_eq`), and which records it adds
to the documents that it has loaded (`Manifests.exists_addModels`).
-/

namespace ModelIR

open Xml

/-! ## Adding records -/

namespace ReferenceRecord

theorem exists_bind (figures : StateM WordSource Footprint) (f : Footprint → ReferenceRecord)
    (w : WordSource) :
      ∃ memory w', (do let memory ← figures; return f memory).run w = (f memory, w') :=
  ⟨(figures.run w).1, (figures.run w).2, rfl⟩

theorem exists_forTest (model : Model) (test : TestKind) (w : WordSource) :
    ∃ r w', (forTest model test).run w = (r, w') ∧
      r.subject = (model.path.toText, model.precision, test, referenceDevice) := by
  obtain ⟨memory, w', h⟩ := exists_bind Footprint.random
    (fun memory => ⟨model.path.toText, model.precision, test, referenceDevice, memory⟩) w
  exact ⟨_, w', h, rfl⟩

theorem exists_mapM_forTest (model : Model) : ∀ (tests : List TestKind) (w : WordSource),
    ∃ rs w', (tests.mapM (forTest model)).run w = (rs, w') ∧ rs.map subject =
      tests.map fun test => (model.path.toText, model.precision, test, referenceDevice)
  | [], w => ⟨[], w, rfl, rfl⟩
  | test :: tests, w => by
    obtain ⟨r, w₁, hr, hsubject⟩ := exists_forTest model test w
    obtain ⟨rs, w₂, hrs, hsubjects⟩ := exists_mapM_forTest model tests w₁
    refine ⟨r :: rs, w₂, ?_, by rw [List.map_cons, List.map_cons, hsubject, hsubjects]⟩
    rw [List.mapM_cons, StateT.run_bind, hr]
    change (do let rs ← tests.mapM (forTest model); pure (r :: rs)).run w₁ = _
    rw [StateT.run_bind, hrs]
    rfl

/-- All tests of a model have a record, in their order. -/
theorem exists_forAllTests (model : Model) (w : WordSource) :
    ∃ rs w', (forAllTests model).run w = (rs, w') ∧ rs.map subject = model.subjects :=
  exists_mapM_forTest model TestKind.all w

end ReferenceRecord

namespace Manifests

/-- Manifests with the records of some models added, in the order of the models. -/
structure Adds (d d' : Manifests) (models : List Model) : Prop where
  tests : d'.tests = (models.map fun model => (ModelRecord.ofModel model).toElement).foldl
    Document.append d.tests
  references : ∃ rs : List ReferenceRecord,
    rs.map ReferenceRecord.subject = models.flatMap Model.subjects ∧
      d'.references = (rs.map ReferenceRecord.toElement).foldl Document.append d.references
  report : d'.report = { d.report with
    modelRecords := d.report.modelRecords + models.length
    referenceRecords := d.report.referenceRecords + 3 * models.length }

variable {d d' : Manifests} {models : List Model}

theorem adds_nil (d : Manifests) : d.Adds d [] :=
  ⟨rfl, ⟨[], rfl, rfl⟩, rfl⟩

theorem exists_addModel (d : Manifests) (model : Model) (w : WordSource) :
    ∃ d' w', (d.addModel model).run w = (d', w') ∧ d.Adds d' [model] := by
  obtain ⟨rs, w', hrs, hsubjects⟩ := ReferenceRecord.exists_forAllTests model w
  have hlength : rs.length = 3 := by
    rw [← List.length_map, hsubjects]
    rfl
  rw [addModel, StateT.run_bind, hrs]
  refine ⟨_, w', rfl, rfl, ⟨rs, ?_, ?_⟩, ?_⟩
  · rw [hsubjects, List.flatMap_singleton]
  · exact List.foldl_map.symm
  · simp [hlength]

theorem Adds.path_tests (h : d.Adds d' models) : d'.tests.path = d.tests.path := by
  rw [h.tests, Document.path_foldl_append]

theorem Adds.path_references (h : d.Adds d' models) : d'.references.path = d.references.path := by
  obtain ⟨rs, -, hrs⟩ := h.references
  rw [hrs, Document.path_foldl_append]

theorem Adds.trans {model : Model} {d'' : Manifests} (h : d.Adds d' [model])
    (h' : d'.Adds d'' models) : d.Adds d'' (model :: models) where
  tests := by
    rw [h'.tests, h.tests]
    rfl
  references := by
    obtain ⟨rs, hrs, hd⟩ := h.references
    obtain ⟨rs', hrs', hd'⟩ := h'.references
    refine ⟨rs ++ rs', ?_, ?_⟩
    · rw [List.map_append, hrs, hrs', List.flatMap_singleton, List.flatMap_cons]
    · rw [List.map_append, List.foldl_append, hd', hd]
  report := by
    rw [h'.report, h.report]
    simp only [List.length_cons, List.length_nil]
    congr 1 <;> omega

theorem exists_foldlM_addModel : ∀ (models : List Model) (d : Manifests) (w : WordSource),
    ∃ d' w', (models.foldlM addModel d).run w = (d', w') ∧ d.Adds d' models
  | [], d, w => ⟨d, w, rfl, d.adds_nil⟩
  | model :: models, d, w => by
    obtain ⟨d₁, w₁, h₁, hadds₁⟩ := d.exists_addModel model w
    obtain ⟨d₂, w₂, h₂, hadds₂⟩ := exists_foldlM_addModel models d₁ w₁
    refine ⟨d₂, w₂, ?_, hadds₁.trans hadds₂⟩
    rw [List.foldlM_cons, StateT.run_bind, h₁]
    exact h₂

/-- Every model adds its record, and the records of its tests. -/
theorem exists_addModels (d : Manifests) (models : List Model) (w : WordSource) :
    ∃ d' w', (d.addModels models).run w = (d', w') ∧
      Adds { d with report := { models := models.length } } d' models :=
  exists_foldlM_addModel models _ w

end Manifests

/-! ## Steps -/

namespace FileTree

variable (t : FileTree)

/-- The document that is kept at a path. -/
def document (p : Path) (kind : DocumentKind) : Except ManifestError Document :=
  Document.ofOpened p kind (t.opened p)

/-- What a scan of a directory finds. -/
def scan (f : Filter) (dir : Path) : Except ScanError Scan :=
  if t.present dir then Scan.ofVisits f (t.visits dir) else .error (.missing dir)

/-- Saves a document. -/
def saveDocument (d : Document) : Except ManifestError Unit × FileTree :=
  ((t.save d.path d.bytes).1.mapError (Document.saveError d.path), (t.save d.path d.bytes).2)

variable {t}

theorem ofVisits_of_scan {f : Filter} {dir : Path} {scan : Scan} (h : t.scan f dir = .ok scan) :
    Scan.ofVisits f (t.visits dir) = .ok scan := by
  rw [FileTree.scan] at h
  split_ifs at h
  · exact h

theorem save_of_saveDocument {t' : FileTree} {d : Document} (h : t.saveDocument d = (.ok (), t')) :
    t.save d.path d.bytes = (.ok (), t') := by
  obtain ⟨hresult, rfl⟩ := Prod.mk.inj h
  rcases hsave : (t.save d.path d.bytes).1 with fault | u
  · simp [hsave, Except.mapError] at hresult
  · exact Prod.ext hsave rfl

end FileTree

namespace Job

section Bind

variable {α β σ : Type} (k : α → ExceptT ManifestError (StateT WordSource (StateM σ)) β)
  (w : WordSource) (s : σ)

theorem run_attempt_bind (action : StateM σ (Except ManifestError α)) :
    ((attempt action >>= k).run.run w).run s =
      match action.run s with
      | (.error e, s) => ((.error e, w), s)
      | (.ok a, s) => ((k a).run.run w).run s := by
  rw [attempt, ExceptT.run_bind, StateT.run_bind, StateT.run_bind]
  rw [ExceptT.run_mk, StateT.run_lift, StateT.run_bind]
  rcases h : action.run s with ⟨e | a, s'⟩
  · rfl
  · rfl

theorem run_modifyGet_bind (f : WordSource → α × WordSource) :
    ((modifyGet f >>= k).run.run w).run s = ((k (f w).1).run.run (f w).2).run s :=
  rfl

end Bind

/-- The steps of a generation with files that are looked at and saved. -/
theorem run_eq {σ : Type} {files : Files (StateM σ)} {view : σ → FilesView}
    (hfiles : files.Shows view) (job : Job) (w : WordSource) (s : σ) :
    ((job.run files).run.run w).run s =
      match Document.ofOpened job.testConf .tests ((view s).opened job.testConf) with
      | .error e => ((.error e, w), s)
      | .ok tests =>
        match Document.ofOpened job.refsConf .references ((view s).opened job.refsConf) with
        | .error e => ((.error e, w), s)
        | .ok references =>
          match Scan.ofView (view s) job.filter job.irCacheDir with
          | .error e => ((.error (.scan e), w), s)
          | .ok scan =>
            let (d, w) := (Manifests.addModels { tests, references } scan.models).run w
            match (d.tests.save files).run s with
            | (.error e, s) => ((.error e, w), s)
            | (.ok _, s) =>
              match (d.references.save files).run s with
              | (.error e, s) => ((.error e, w), s)
              | (.ok _, s) =>
                  ((.ok { d.report with filesVisited := scan.filesVisited }, w), s) := by
  rw [run, run_attempt_bind, hfiles.run_load]
  rcases Document.ofOpened job.testConf .tests ((view s).opened job.testConf) with e | tests
  · rfl
  simp only
  rw [run_attempt_bind, hfiles.run_load]
  rcases Document.ofOpened job.refsConf .references ((view s).opened job.refsConf)
    with e | references
  · rfl
  simp only
  rw [run_attempt_bind, hfiles.run_mapError_scan]
  rcases Scan.ofView (view s) job.filter job.irCacheDir with e | scan
  · rfl
  simp only [Except.mapError]
  rw [run_modifyGet_bind, run_attempt_bind]
  rcases (Manifests.addModels { tests, references } scan.models).run w with ⟨d, w'⟩
  simp only
  rcases (d.tests.save files).run s with ⟨e | u, s₁⟩
  · rfl
  simp only
  rw [run_attempt_bind]
  rcases (d.references.save files).run s₁ with ⟨e | u, s₂⟩ <;> rfl

variable (job : Job) (w : WordSource) (t : FileTree)

/-- What a generation comes to, and the tree of files behind it. -/
def runOn : Except ManifestError GenerationReport × FileTree :=
  let ((result, _), t) := ((job.run FileTree.files).run.run w).run t
  (result, t)

theorem run_load (p : Path) (kind : DocumentKind) :
    (Document.load FileTree.files p kind).run t = (t.document p kind, t) :=
  FileTree.shows_files.run_load p kind t

theorem run_save (d : Document) : (d.save FileTree.files).run t = t.saveDocument d :=
  rfl

/-- The steps of a generation with the files of a tree. -/
theorem runOn_eq : job.runOn w t =
    match t.document job.testConf .tests with
    | .error e => (.error e, t)
    | .ok tests =>
      match t.document job.refsConf .references with
      | .error e => (.error e, t)
      | .ok references =>
        match t.scan job.filter job.irCacheDir with
        | .error e => (.error (.scan e), t)
        | .ok scan =>
          let d := ((Manifests.addModels { tests, references } scan.models).run w).1
          match t.saveDocument d.tests with
          | (.error e, t) => (.error e, t)
          | (.ok _, t) =>
            match t.saveDocument d.references with
            | (.error e, t) => (.error e, t)
            | (.ok _, t) => (.ok { d.report with filesVisited := scan.filesVisited }, t) := by
  have hscan : Scan.ofView t.view job.filter job.irCacheDir = t.scan job.filter job.irCacheDir :=
    rfl
  have hload : ∀ p kind, Document.ofOpened p kind (t.view.opened p) = t.document p kind :=
    fun _ _ => rfl
  simp only [runOn, run_eq FileTree.shows_files, hscan, hload, run_save]
  rcases t.document job.testConf .tests with e | tests
  · rfl
  rcases t.document job.refsConf .references with e | references
  · rfl
  rcases t.scan job.filter job.irCacheDir with e | scan
  · rfl
  simp only
  rcases (Manifests.addModels { tests, references } scan.models).run w with ⟨d, w'⟩
  simp only
  rcases t.saveDocument d.tests with ⟨e | u, t'⟩
  · rfl
  simp only
  rcases t'.saveDocument d.references with ⟨e | u, t''⟩ <;> rfl

end Job

/-! ## Generations that succeed -/

/-- The tag of the record of a model under test. -/
def Model.recordTag (model : Model) : Tag :=
  (ModelRecord.ofModel model).toElement.tag

/-- The tag of the record of a test. -/
def ReferenceRecord.recordTag (r : ReferenceRecord) : Tag :=
  r.toElement.tag

/-- What is reported of a generation that finds the models of a scan. -/
def Scan.report (scan : Scan) : GenerationReport where
  filesVisited := scan.filesVisited
  models := scan.models.length
  modelRecords := scan.models.length
  referenceRecords := 3 * scan.models.length

namespace Job

/-- The steps of a generation that succeeds. -/
theorem exists_of_runOn {job : Job} {w : WordSource} {t t' : FileTree} {report : GenerationReport}
    (h : job.runOn w t = (.ok report, t')) : ∃ tests references scan d t₁,
    t.document job.testConf .tests = .ok tests ∧
      t.document job.refsConf .references = .ok references ∧
      t.scan job.filter job.irCacheDir = .ok scan ∧
      Manifests.Adds { tests, references, report := { models := scan.models.length } }
        d scan.models ∧
      t.saveDocument d.tests = (.ok (), t₁) ∧ t₁.saveDocument d.references = (.ok (), t') ∧
      report = scan.report := by
  rw [runOn_eq] at h
  rcases htests : t.document job.testConf .tests with e | tests
  · simp [htests] at h
  rcases hreferences : t.document job.refsConf .references with e | references
  · simp [htests, hreferences] at h
  rcases hscan : t.scan job.filter job.irCacheDir with e | scan
  · simp [htests, hreferences, hscan] at h
  obtain ⟨d, w', hd, hadds⟩ := Manifests.exists_addModels { tests, references } scan.models w
  simp only [htests, hreferences, hscan, hd] at h
  rcases hsave : t.saveDocument d.tests with ⟨e | u, t₁⟩
  · simp [hsave] at h
  rcases hsave' : t₁.saveDocument d.references with ⟨e | u, t₂⟩
  · simp [hsave, hsave'] at h
  simp only [hsave, hsave'] at h
  obtain ⟨hreport, rfl⟩ := Prod.mk.inj h
  refine ⟨tests, references, scan, d, t₁, rfl, rfl, rfl, hadds, hsave, hsave', ?_⟩
  rw [← Except.ok.inj hreport, hadds.report]
  simp [Scan.report]

end Job

end ModelIR
