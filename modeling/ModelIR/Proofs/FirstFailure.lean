import ModelIR.Proofs.GenerationRun
import ModelIR.Proofs.ScanSelection

/-!
# The first failure

A generation loads the document of tests, then that of references, and then scans the cache. The
first of these that fails is what the generation comes to (`Job.run_fails`); by then it has only
looked at files and has drawn no word, however far the scan has come.
-/

namespace ModelIR

open Xml

/-! ## Documents -/

namespace Document

/-- Why what a path is opened as makes no document of a kind. -/
inductive Fails (path : Path) (kind : DocumentKind) : Except FileError Opened → ManifestError → Prop
  | access (e : FileError) : Fails path kind (.error e) (.access path e)
  | directory : Fails path kind (.ok .directory) (.malformed path)
  | malformed {bytes : ByteArray} (h : Element.parse bytes = none) :
    Fails path kind (.ok (.file bytes)) (.malformed path)
  | missingContainer {bytes : ByteArray} {root : Element} (h : Element.parse bytes = some root)
    (hmodels : ∀ node ∈ root.children, ¬ node.isElement containerName)
    (hdevices : kind = .tests → ∀ node ∈ root.children, ¬ node.isElement deviceName) :
    Fails path kind (.ok (.file bytes)) (.missingContainer path)

variable {path : Path} {kind : DocumentKind} {root : Element} {e : ManifestError}

/-- Loading a document fails for one of the reasons that there are, and with the error for it. -/
theorem ofOpened_eq_error_iff {opened : Except FileError Opened} :
    ofOpened path kind opened = .error e ↔ Fails path kind opened e := by
  constructor
  · intro h
    rcases opened with e' | (bytes | _)
    · obtain rfl := Except.error.inj h
      exact .access e'
    · rw [ofOpened, ofBytes] at h
      split at h
      · next root hroot =>
        obtain ⟨hnone, rfl⟩ := ofElement_eq_error_iff.1 h
        obtain ⟨hmodels, hdevices⟩ := ofRoot?_eq_none_iff.1 hnone
        exact .missingContainer hroot hmodels hdevices
      · next hnone =>
        obtain rfl := Except.error.inj h
        exact .malformed hnone
    · obtain rfl := Except.error.inj h
      exact .directory
  · rintro (⟨e'⟩ | _ | h | ⟨h, hmodels, hdevices⟩)
    · rfl
    · rfl
    · rw [ofOpened, ofBytes, h]
    · rw [ofOpened, ofBytes, h]
      exact ofElement_eq_error_iff.2 ⟨ofRoot?_eq_none_iff.2 ⟨hmodels, hdevices⟩, rfl⟩

end Document

/-! ## Scans -/

namespace Scan

/-- A scan goes on behind a file whose name is not asked for, or whose path has the depth of its
layout. -/
def Passes (f : Filter) : Visit → Prop
  | .file path name => f.WantsName (Lossy.decode name) → ∃ model, Model.ofPath path = .ok model
  | .unlistable _ => False

/-- Why a scan of a directory fails. -/
inductive Fails (view : FilesView) (f : Filter) (dir : Path) : ScanError → Prop
  | missing (h : view.present dir = false) : Fails view f dir (.missing dir)
  | unlistable {before after : List Visit} {path : Path} (h : view.present dir = true)
    (hvisits : view.visits dir = before ++ .unlistable path :: after)
    (hbefore : ∀ v ∈ before, Passes f v) :
    Fails view f dir (.unlistable path)
  | shallow {before after : List Visit} {path : Path} {name : Name} {e : ShallowPath}
    (h : view.present dir = true) (hvisits : view.visits dir = before ++ .file path name :: after)
    (hbefore : ∀ v ∈ before, Passes f v) (hname : f.WantsName (Lossy.decode name))
    (hpath : Model.ofPath path = .error e) : Fails view f dir (.shallow e)

variable {f : Filter} {v : Visit} {e : ScanError}

theorem passes_iff : Passes f v ↔ ∃ found, modelOf f v = .ok found := by
  rcases v with ⟨path, name⟩ | path
  · rw [Passes, modelOf, ← Filter.wants_iff]
    by_cases hname : wants f (Lossy.decode name) = true
    · rw [if_pos hname]
      rcases Model.ofPath path with e | model <;> simp [hname]
    · rw [if_neg hname]
      simp [hname]
  · simp [Passes, modelOf]

theorem modelOf_file_eq_error_iff {path : Path} {name : Name} :
    modelOf f (.file path name) = .error e ↔ f.WantsName (Lossy.decode name) ∧
      ∃ e', Model.ofPath path = .error e' ∧ e = .shallow e' := by
  rw [modelOf, ← Filter.wants_iff]
  by_cases hname : wants f (Lossy.decode name) = true
  · rw [if_pos hname]
    rcases Model.ofPath path with e' | model
    · simp [hname, eq_comm (a := e)]
    · simp
  · rw [if_neg hname]
    simp [hname]

/-- A scan fails at the first visit behind which it cannot go on, and with the error for it. -/
theorem ofView_eq_error_iff {view : FilesView} {dir : Path} :
    ofView view f dir = .error e ↔ Fails view f dir e := by
  rw [ofView]
  constructor
  · intro h
    split_ifs at h with hpresent
    · obtain ⟨before, v, after, hvisits, hbefore, hv⟩ := ofVisits_eq_error_iff.1 h
      replace hbefore := fun u hu => passes_iff.2 (hbefore u hu)
      rcases v with ⟨path, name⟩ | path
      · obtain ⟨hname, e', hpath, rfl⟩ := modelOf_file_eq_error_iff.1 hv
        exact .shallow hpresent hvisits hbefore hname hpath
      · obtain rfl := Except.error.inj hv
        exact .unlistable hpresent hvisits hbefore
    · obtain rfl := Except.error.inj h
      exact .missing (Bool.not_eq_true _ ▸ hpresent)
  · rintro (h | ⟨h, hvisits, hbefore⟩ | ⟨h, hvisits, hbefore, hname, hpath⟩)
    · rw [h]
      rfl
    · rw [if_pos h, hvisits, ofVisits_eq_error_iff]
      exact ⟨_, _, _, rfl, fun u hu => passes_iff.1 (hbefore u hu), rfl⟩
    · rw [if_pos h, hvisits, ofVisits_eq_error_iff]
      refine ⟨_, _, _, rfl, fun u hu => passes_iff.1 (hbefore u hu), ?_⟩
      exact modelOf_file_eq_error_iff.2 ⟨hname, _, hpath, rfl⟩

end Scan

/-! ## Generations -/

namespace Job

/-- The first of the documents and the scan that a job fails to have, by its error. -/
inductive FirstFailure (job : Job) (view : FilesView) : ManifestError → Prop
  | tests {e : ManifestError}
    (h : Document.Fails job.testConf .tests (view.opened job.testConf) e) :
    FirstFailure job view e
  | references {d : Document} {e : ManifestError}
    (htests : Document.ofOpened job.testConf .tests (view.opened job.testConf) = .ok d)
    (h : Document.Fails job.refsConf .references (view.opened job.refsConf) e) :
    FirstFailure job view e
  | scan {tests references : Document} {e : ScanError}
    (htests : Document.ofOpened job.testConf .tests (view.opened job.testConf) = .ok tests)
    (hreferences : Document.ofOpened job.refsConf .references (view.opened job.refsConf) =
      .ok references)
    (h : Scan.Fails view job.filter job.irCacheDir e) : FirstFailure job view (.scan e)

variable {σ : Type} {files : Files (StateM σ)} {view : σ → FilesView} {job : Job} {s : σ}

/-- A generation ends with the first failure. -/
theorem FirstFailure.run_eq {e : ManifestError} (h : job.FirstFailure (view s) e)
    (hfiles : files.Shows view) (w : WordSource) :
    ((job.run files).run.run w).run s = ((.error e, w), s) := by
  rw [Job.run_eq hfiles]
  rcases h with h | ⟨htests, h⟩ | ⟨htests, hreferences, h⟩
  · rw [Document.ofOpened_eq_error_iff.2 h]
  · simp only [htests, Document.ofOpened_eq_error_iff.2 h]
  · simp only [htests, hreferences, Scan.ofView_eq_error_iff.2 h]

/-- Something fails first, or both documents load and the scan succeeds. -/
theorem exists_firstFailure_or (job : Job) (v : FilesView) : (∃ e, job.FirstFailure v e) ∨
    ∃ tests references scan,
      Document.ofOpened job.testConf .tests (v.opened job.testConf) = .ok tests ∧
      Document.ofOpened job.refsConf .references (v.opened job.refsConf) = .ok references ∧
      Scan.ofView v job.filter job.irCacheDir = .ok scan := by
  rcases htests : Document.ofOpened job.testConf .tests (v.opened job.testConf) with e | tests
  · exact .inl ⟨e, .tests (Document.ofOpened_eq_error_iff.1 htests)⟩
  rcases hreferences : Document.ofOpened job.refsConf .references (v.opened job.refsConf)
    with e | references
  · exact .inl ⟨e, .references htests (Document.ofOpened_eq_error_iff.1 hreferences)⟩
  rcases hscan : Scan.ofView v job.filter job.irCacheDir with e | scan
  · exact .inl ⟨_, .scan htests hreferences (Scan.ofView_eq_error_iff.1 hscan)⟩
  · exact .inr ⟨tests, references, scan, rfl, rfl, rfl⟩

/-- If a document does not load, or the scan fails, then a generation comes to the first of these
failures, and neither the files nor the source of words is other than before. -/
theorem run_fails (hfiles : files.Shows view) (s : σ) (w : WordSource)
    (h : (∃ e, ((Document.load files job.testConf .tests).run s).1 = .error e) ∨
      (∃ e, ((Document.load files job.refsConf .references).run s).1 = .error e) ∨
        ∃ e, ((Scan.run files job.filter job.irCacheDir).run s).1 = .error e) :
    ∃ e, job.FirstFailure (view s) e ∧ ((job.run files).run.run w).run s = ((.error e, w), s) := by
  rcases job.exists_firstFailure_or (view s) with
    ⟨e, he⟩ | ⟨tests, references, scan, htests, hreferences, hscan⟩
  · exact ⟨e, he, he.run_eq hfiles w⟩
  · rw [hfiles.run_load, hfiles.run_load, hfiles.run_scan, htests, hreferences, hscan] at h
    rcases h with ⟨e, he⟩ | ⟨e, he⟩ | ⟨e, he⟩ <;> exact nomatch he

section Faulty

/-- A cache with a model and, behind it, a file whose path is too short. -/
def faultyCache : Entry :=
  .dir [([0x7A, 0x2E, 0x78, 0x6D, 0x6C], .file {}), ([0x61], FileTree.siblingBranch)]

/-- A tree of this cache and an empty document of references. That of tests is missing. -/
def faultyTree : FileTree where
  root := .dir [([0x72], .file {}), ([0x63], faultyCache)]

/-- A job for this tree. -/
def faultyJob : Job where
  testConf := ⟨[0x2F, 0x74]⟩
  refsConf := ⟨[0x2F, 0x72]⟩
  irCacheDir := ⟨[0x2F, 0x63]⟩

theorem visits_faultyTree : faultyTree.visits faultyJob.irCacheDir =
    [.file ⟨[0x2F, 0x63, 0x2F, 0x61, 0x2F, 0x62, 0x2F, 0x46, 0x2F, 0x64, 0x2F,
          0x6D, 0x2E, 0x78, 0x6D, 0x6C]⟩
        [0x6D, 0x2E, 0x78, 0x6D, 0x6C],
      .file ⟨[0x2F, 0x63, 0x2F, 0x7A, 0x2E, 0x78, 0x6D, 0x6C]⟩ [0x7A, 0x2E, 0x78, 0x6D, 0x6C]] := by
  have hresolve : faultyTree.resolve faultyJob.irCacheDir = .ok (.found [[0x63]] faultyCache) := rfl
  rw [FileTree.visits, hresolve]
  refine (Entry.visits_dir (by decide) (.swap _ _ _) ?_ []).trans ?_
  · decide
  · decide +kernel

theorem scan_faultyTree :
    ((Scan.run FileTree.files faultyJob.filter faultyJob.irCacheDir).run faultyTree).1 =
      .error (.shallow ⟨⟨[0x2F, 0x63, 0x2F, 0x7A, 0x2E, 0x78, 0x6D, 0x6C]⟩, .plain, 2⟩) := by
  have hpresent : faultyTree.view.present faultyJob.irCacheDir = true := rfl
  have hvisits : faultyTree.view.visits faultyJob.irCacheDir = _ := visits_faultyTree
  rw [FileTree.shows_files.run_scan, Scan.ofView, if_pos hpresent, hvisits]
  decide +kernel

/-- A generation where all that may fail does. -/
theorem faultyTree_fails : FileTree.files.Shows FileTree.view ∧
    (∃ e, ((Scan.run FileTree.files faultyJob.filter faultyJob.irCacheDir).run faultyTree).1 =
      .error e) ∧
    ∃ e, faultyJob.FirstFailure faultyTree.view e ∧
      ((faultyJob.run FileTree.files).run.run (.ofSeed 0)).run faultyTree =
        ((.error e, .ofSeed 0), faultyTree) :=
  ⟨FileTree.shows_files, ⟨_, scan_faultyTree⟩,
    run_fails FileTree.shows_files faultyTree (.ofSeed 0) (.inr (.inr ⟨_, scan_faultyTree⟩))⟩

/-- The document of tests comes first. -/
example : faultyJob.FirstFailure faultyTree.view (.access faultyJob.testConf .missing) :=
  .tests (.access .missing)

end Faulty

end Job

end ModelIR
