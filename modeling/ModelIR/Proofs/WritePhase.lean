import ModelIR.Proofs.FirstFailure
import ModelIR.Proofs.KeptDocuments
import ModelIR.Proofs.StoredFiles

/-!
# The writing of documents

When both documents are loaded, the scan has succeeded and the records are added, a generation saves
first the document of tests and then that of references (`Job.exists_prepared`). A fault of the
second saving leaves the first document with its new content, and a fault behind the making of a
file leaves a part of the new content. The error that is reported is the same for a file that cannot
be made and for one whose last block does not go out, so an error of access does not tell that the
documents are as before (`Job.run_error_changes`).
-/

namespace ModelIR

variable {σ : Type} {files : Files (StateM σ)} {view : σ → FilesView} {job : Job} {s s' : σ}

theorem Files.Stores.save (h : files.Stores view) (d : Document) {bytes : ByteArray}
    (hopened : (view s).opened d.path = .ok (.file bytes)) :
    ∃ r s', (d.save files).run s = (r.mapError (Document.saveError d.path), s') ∧
      (view s).Saved d.path d.bytes r (view s') :=
  ⟨_, _, rfl, h d.path d.bytes s bytes hopened⟩

namespace Job

/-- What a generation has to save: the documents that it has loaded, with the records of the models
that it has found. -/
structure Prepared (job : Job) (v : FilesView) (scan : Scan) (tests references : Document)
    (d : Manifests) : Prop where
  loads_tests : Document.ofOpened job.testConf .tests (v.opened job.testConf) = .ok tests
  loads_references :
    Document.ofOpened job.refsConf .references (v.opened job.refsConf) = .ok references
  finds : Scan.ofView v job.filter job.irCacheDir = .ok scan
  adds : Manifests.Adds { tests, references, report := { models := scan.models.length } }
    d scan.models

variable {v v' : FilesView} {scan : Scan} {tests references : Document} {d : Manifests}

theorem Prepared.path_tests (h : job.Prepared v scan tests references d) :
    d.tests.path = job.testConf :=
  h.adds.path_tests.trans (Document.of_ofOpened h.loads_tests).1

theorem Prepared.path_references (h : job.Prepared v scan tests references d) :
    d.references.path = job.refsConf :=
  h.adds.path_references.trans (Document.of_ofOpened h.loads_references).1

/-- A generation that does not end with a first failure gets to the writing of the documents. -/
theorem exists_prepared (hfiles : files.Shows view) (s : σ) (w : WordSource) :
    (∃ e, job.FirstFailure (view s) e) ∨
      ∃ scan tests references d w', job.Prepared (view s) scan tests references d ∧
        ((job.run files).run.run w).run s =
          match (d.tests.save files).run s with
          | (.error e, s) => ((.error e, w'), s)
          | (.ok _, s) =>
            match (d.references.save files).run s with
            | (.error e, s) => ((.error e, w'), s)
            | (.ok _, s) => ((.ok { d.report with filesVisited := scan.filesVisited }, w'), s) := by
  refine (job.exists_firstFailure_or (view s)).imp_right fun hloaded => ?_
  obtain ⟨tests, references, scan, htests, hreferences, hscan⟩ := hloaded
  obtain ⟨d, w', hd, hadds⟩ := Manifests.exists_addModels { tests, references } scan.models w
  refine ⟨scan, tests, references, d, w', ⟨htests, hreferences, hscan, hadds⟩, ?_⟩
  have hsteps := run_eq hfiles job w s
  simp only [htests, hreferences, hscan, hd] at hsteps
  exact hsteps

/-- A generation that fails, with its error and what there is to see of the files then. -/
inductive Failure (job : Job) (v : FilesView) : ManifestError → FilesView → Prop
  | early {e : ManifestError} (h : job.FirstFailure v e) : Failure job v e v
  | tests {scan : Scan} {tests references : Document} {d : Manifests} {fault : SaveFault}
    {v' : FilesView} (h : job.Prepared v scan tests references d)
    (hsave : v.Saved job.testConf d.tests.bytes (.error fault) v') :
    Failure job v (Document.saveError job.testConf fault) v'
  | references {scan : Scan} {tests references : Document} {d : Manifests} {fault : SaveFault}
    {v₁ v' : FilesView} (h : job.Prepared v scan tests references d)
    (hsaved : v.Rewritten job.testConf d.tests.bytes v₁)
    (hsave : v₁.Saved job.refsConf d.references.bytes (.error fault) v') :
    Failure job v (Document.saveError job.refsConf fault) v'

theorem Failure.eq_of_ne {e : ManifestError} (h : job.Failure v e v')
    (he : ∀ p e', e ≠ .access p e' ∧ e ≠ .unwritten p e') : v' = v := by
  cases h with
  | early => rfl
  | @tests _ _ _ _ fault | @references _ _ _ _ fault =>
    cases fault with
    | create e' | flush e' => exact absurd rfl (he _ e').1
    | emit e' => exact absurd rfl (he _ e').2

/-- A generation that fails leaves all as it is if it has not come to the writing, or if the
document of tests cannot be made. Otherwise its error is that of a document which could not be made
or put out, and what is saved by then stays. The document of references may be the very file that
has been written before it. -/
theorem run_error_changes (hfiles : files.Shows view) (hstores : files.Stores view)
    {w w' : WordSource} {e : ManifestError}
    (hrun : ((job.run files).run.run w).run s = ((.error e, w'), s')) :
    job.Failure (view s) e (view s') ∧
      ((∀ p e', e ≠ .access p e' ∧ e ≠ .unwritten p e') → view s' = view s) := by
  suffices hfailure : job.Failure (view s) e (view s') from ⟨hfailure, hfailure.eq_of_ne⟩
  rcases exists_prepared hfiles s w with ⟨e', hfirst⟩ | ⟨scan, tests, references, d, w₁, h, hwrites⟩
  · rw [hfirst.run_eq hfiles] at hrun
    obtain ⟨hresult, rfl⟩ := Prod.mk.inj hrun
    obtain rfl := Except.error.inj (Prod.mk.inj hresult).1
    exact .early hfirst
  rw [hrun] at hwrites
  obtain ⟨bytes, hopened, -⟩ := Document.exists_of_ofOpened h.loads_tests
  obtain ⟨bytes', hopened', -⟩ := Document.exists_of_ofOpened h.loads_references
  obtain ⟨r, s₁, hsave, hsaved⟩ := hstores.save d.tests (h.path_tests ▸ hopened)
  rw [h.path_tests] at hsave hsaved
  rw [hsave] at hwrites
  rcases r with fault | ⟨⟩
  · obtain ⟨hresult, rfl⟩ := Prod.mk.inj hwrites
    obtain rfl := Except.error.inj (Prod.mk.inj hresult).1
    exact .tests h hsaved
  obtain ⟨⟩ | ⟨⟩ | hwritten := hsaved
  have hopened₁ : ∃ bytes, (view s₁).opened d.references.path = .ok (.file bytes) := by
    rw [h.path_references]
    rcases hwritten.others job.refsConf with hsame | hnew
    · exact ⟨bytes', hsame.trans hopened'⟩
    · exact ⟨_, hnew⟩
  obtain ⟨bytes₁, hopened₁⟩ := hopened₁
  obtain ⟨r, s₂, hsave₂, hsaved₂⟩ := hstores.save d.references hopened₁
  rw [h.path_references] at hsave₂ hsaved₂
  simp only [Except.mapError, hsave₂] at hwrites
  rcases r with fault | ⟨⟩
  · obtain ⟨hresult, rfl⟩ := Prod.mk.inj hwrites
    obtain rfl := Except.error.inj (Prod.mk.inj hresult).1
    exact .references h hwritten hsaved₂
  · exact absurd (Prod.mk.inj (Prod.mk.inj hwrites).1).1 nofun

section Refused

theorem runOn_eq_of_refused {t t₁ t₂ : FileTree} {w w' : WordSource} {e : ManifestError}
    (htests : t.document job.testConf .tests = .ok tests)
    (hreferences : t.document job.refsConf .references = .ok references)
    (hscan : t.scan job.filter job.irCacheDir = .ok scan)
    (hd : (Manifests.addModels { tests, references } scan.models).run w = (d, w'))
    (hsave : t.saveDocument d.tests = (.ok (), t₁))
    (hrefused : t₁.saveDocument d.references = (.error e, t₂)) :
    job.runOn w t = (.error e, t₂) := by
  rw [runOn_eq, htests, hreferences, hscan]
  simp only [hd, hsave, hrefused]

/-- A tree of a small cache and two documents, of which that of references can only be read. -/
def refusedTree : FileTree where
  root := .dir [([0x63], smallCache), ([0x72], .file { smallFile with writable := false }),
    ([0x74], .file smallFile)]

theorem tests_refusedTree : refusedTree.HasFile smallJob.testConf [[0x74]] smallFile :=
  rfl

theorem references_refusedTree :
    refusedTree.HasFile smallJob.refsConf [[0x72]] { smallFile with writable := false } :=
  rfl

theorem keeps_refusedTree (kind : DocumentKind) : refusedTree.Keeps smallJob.testConf kind
    ⟨smallJob.testConf, smallRoot.settled, .models⟩ :=
  keeps_smallFile tests_refusedTree (tests_refusedTree.accepts_iff.2 ⟨rfl, rfl⟩)

/-- The document of references cannot be made anew, and that of tests has its record by then. -/
theorem exists_runOn_refusedTree (w : WordSource) : ∃ t' tests',
    smallJob.runOn w refusedTree = (.error (.access smallJob.refsConf .accessDenied), t') ∧
      t'.document smallJob.testConf .tests = .ok tests' ∧
      tests'.records = [smallScan.models.map Model.recordTag] := by
  have hreferences : refusedTree.document smallJob.refsConf .references =
      .ok ⟨smallJob.refsConf, smallRoot.settled, .models⟩ := by
    rw [FileTree.document, references_refusedTree.opened]
    exact ofBytes_smallFile
  have hscan : refusedTree.scan smallJob.filter smallJob.irCacheDir = .ok smallScan :=
    scan_smallCache rfl
  have hdifferent : ¬ refusedTree.SameFile smallJob.testConf smallJob.refsConf := by
    rw [FileTree.sameFile_iff tests_refusedTree references_refusedTree]
    decide
  obtain ⟨d, w', hd, hadds⟩ := Manifests.exists_addModels
    ⟨⟨smallJob.testConf, smallRoot.settled, .models⟩,
      ⟨smallJob.refsConf, smallRoot.settled, .models⟩, {}⟩ smallScan.models w
  have hpath : d.references.path = smallJob.refsConf := hadds.path_references
  obtain ⟨t₁, hsave, -, hkeeps, hrecords, -⟩ :=
    (keeps_refusedTree .tests).exists_saved (plain_modelRecords hasTexts_smallScan)
  have hother : t₁.HasFile smallJob.refsConf [[0x72]] { smallFile with writable := false } := by
    have hfile := FileTree.save_of_saveDocument hsave
    rw [Document.path_foldl_append] at hfile
    have hother := tests_refusedTree.hasFile_save_other (congrArg Prod.fst hfile)
      references_refusedTree hdifferent
    rwa [hfile] at hother
  rw [← hadds.tests] at hsave hkeeps hrecords
  have hrefused : t₁.saveDocument d.references =
      (.error (.access smallJob.refsConf .accessDenied), t₁) := by
    rw [FileTree.saveDocument, hpath, hother.save]
    rfl
  exact ⟨t₁, _, runOn_eq_of_refused (keeps_refusedTree .tests).document hreferences hscan hd hsave
    hrefused, hkeeps.document, hrecords⟩

/-- A generation that reports an error of access, and behind which the document of tests has other
records than before. -/
theorem refusedTree_changes : ∃ w' t' tests tests',
    FileTree.files.Shows FileTree.view ∧ FileTree.files.Stores FileTree.view ∧
    ((smallJob.run FileTree.files).run.run (.ofSeed 0)).run refusedTree =
      ((.error (.access smallJob.refsConf .accessDenied), w'), t') ∧
    smallJob.Failure refusedTree.view (.access smallJob.refsConf .accessDenied) t'.view ∧
    refusedTree.document smallJob.testConf .tests = .ok tests ∧ tests.records = [[]] ∧
    t'.document smallJob.testConf .tests = .ok tests' ∧
    tests'.records = [smallScan.models.map Model.recordTag] := by
  obtain ⟨t', tests', hrunOn, hdocument, hrecords⟩ := exists_runOn_refusedTree (.ofSeed 0)
  rcases hrun : ((smallJob.run FileTree.files).run.run (.ofSeed 0)).run refusedTree
    with ⟨⟨r, w'⟩, t₁⟩
  rw [runOn, hrun] at hrunOn
  obtain ⟨rfl, rfl⟩ := Prod.mk.inj hrunOn
  exact ⟨w', t₁, _, tests', FileTree.shows_files, FileTree.stores_files, rfl,
    (run_error_changes FileTree.shows_files FileTree.stores_files hrun).1,
    (keeps_refusedTree .tests).document, rfl, hdocument, hrecords⟩

end Refused

end Job

end ModelIR
