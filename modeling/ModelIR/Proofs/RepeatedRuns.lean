import ModelIR.Proofs.RereadRuns

/-!
# Generating again

A generation that has succeeded once succeeds again from what it leaves, whatever words it draws, if
its documents can be read back. So runs that follow each other add the same records each time; and
if the documents cannot be read back, all runs but the first fail (`Job.runs_repeat`).
-/

namespace ModelIR

open Xml

namespace Job

variable {job : Job} {t t' : FileTree} {location : Location} {scan : Scan}
  {tests references : Document}

/-! ## Runs -/

/-- What generations that follow each other come to, one for every source of words, and the tree of
files behind them. -/
def runs (job : Job) : List WordSource → FileTree →
    List (Except ManifestError GenerationReport) × FileTree
  | [], t => ([], t)
  | w :: sources, t =>
    let (result, t) := job.runOn w t
    let (results, t) := runs job sources t
    (result :: results, t)

/-- Generations that follow each other succeed if the first is ready, and each adds the same records
behind those of the one before. -/
theorem Ready.exists_runs : ∀ (sources : List WordSource) {t : FileTree}
    {tests references : Document}, job.Ready scan t tests references →
    ∃ t' tests' references',
      job.runs sources t = (List.replicate sources.length (.ok scan.report), t') ∧
      job.Ready scan t' tests' references' ∧
      tests'.records = tests.records.map
        (· ++ (List.replicate sources.length (scan.models.map Model.recordTag)).flatten) ∧
      ∃ rs : List ReferenceRecord,
        rs.map ReferenceRecord.subject =
          (List.replicate sources.length (scan.models.flatMap Model.subjects)).flatten ∧
        references'.records = references.records.map (· ++ rs.map ReferenceRecord.recordTag)
  | [], t, tests, references, h => ⟨t, tests, references, rfl, h, by simp, [], by simp⟩
  | w :: sources, t, tests, references, h => by
    obtain ⟨t₁, tests₁, references₁, hrun, h₁, htests₁, rs₁, hsubjects₁, hreferences₁⟩ :=
      h.exists_runOn w
    obtain ⟨t₂, tests₂, references₂, hruns, h₂, htests₂, rs₂, hsubjects₂, hreferences₂⟩ :=
      Ready.exists_runs sources h₁
    refine ⟨t₂, tests₂, references₂, ?_, h₂, ?_, rs₁ ++ rs₂, ?_, ?_⟩
    · rw [runs, hrun]
      simp only [hruns]
      rfl
    · rw [htests₂, htests₁, List.map_map, List.length_cons, List.replicate_succ, List.flatten_cons]
      simp [Function.comp_def]
    · rw [List.map_append, hsubjects₁, hsubjects₂]
      rfl
    · rw [hreferences₂, hreferences₁, List.map_map, List.map_append]
      simp [Function.comp_def]

/-- If no run changes anything, all runs come to the same. -/
theorem runs_of_runOn {result : Except ManifestError GenerationReport}
    (h : ∀ w, job.runOn w t = (result, t)) : ∀ sources : List WordSource,
      job.runs sources t = (List.replicate sources.length result, t)
  | [] => rfl
  | w :: sources => by
    rw [runs, h w]
    simp only [runs_of_runOn h sources]
    rfl

/-! ## Runs from a tree of files -/

/-- The documents of the job are in different files, which take any content, declare no namespace
and use no prefixed names, and the paths of the files in the cache may stand in a document. -/
structure Suits (job : Job) (t : FileTree) : Prop where
  unprefixed : job.Unprefixed t
  different : ¬ t.SameFile job.testConf job.refsConf
  accepts_tests : t.Accepts job.testConf
  accepts_references : t.Accepts job.refsConf
  paths : Scan.HasTexts (t.visits job.irCacheDir)

/-- What `n` runs with one report leave: documents that are loaded with the records of all runs
behind those that they had, one run after the other and in each the models in the order of the scan.
-/
structure Repeated (job : Job) (n : Nat) (report : GenerationReport) (scan : Scan)
    (t t' : FileTree) (tests references tests' references' : Document) : Prop where
  scan_eq : t.scan job.filter job.irCacheDir = .ok scan
  report_eq : report = scan.report
  loads_tests : t.document job.testConf .tests = .ok tests
  loads_references : t.document job.refsConf .references = .ok references
  reloads_tests : t'.document job.testConf .tests = .ok tests'
  reloads_references : t'.document job.refsConf .references = .ok references'
  count_tests : tests'.modelCount = tests.modelCount + n * report.models * tests.sections
  count_references : references'.modelCount = references.modelCount + 3 * n * report.models
  records_tests : tests'.records = tests.records.map
    (· ++ (List.replicate n (scan.models.map Model.recordTag)).flatten)
  records_references : ∃ rs : List ReferenceRecord,
    rs.map ReferenceRecord.subject =
      (List.replicate n (scan.models.flatMap Model.subjects)).flatten ∧
    references'.records = references.records.map (· ++ rs.map ReferenceRecord.recordTag)

theorem keeps_of_document {p : Path} {kind : DocumentKind} {d : Document}
    (h : t.document p kind = .ok d) (htexts : d.root.HasTexts)
    (hprefixes : ∀ bytes, t.opened p = .ok (.file bytes) → HasNoPrefixes bytes)
    (haccepts : t.Accepts p) : t.Keeps p kind d := by
  obtain ⟨location, f, hfile, hbytes⟩ := FileTree.exists_hasFile h
  exact ⟨⟨location, f, hfile, hbytes⟩,
    (Document.plain_of_document h hprefixes).1.plain_iff.2 htexts, haccepts⟩

theorem Suits.hasTexts (h : job.Suits t) (hscan : t.scan job.filter job.irCacheDir = .ok scan) :
    ∀ model ∈ scan.models, model.HasTexts :=
  Scan.hasTexts_of_ofVisits h.paths (FileTree.ofVisits_of_scan hscan)

/-- Runs from documents that can be read back. -/
theorem Ready.exists_repeated (h : job.Ready scan t tests references) (sources : List WordSource) :
    ∃ t' tests' references',
      job.runs sources t = (List.replicate sources.length (.ok scan.report), t') ∧
      job.Repeated sources.length scan.report scan t t' tests references tests' references' := by
  obtain ⟨t', tests', references', hruns, h', htests, rs, hsubjects, hreferences⟩ :=
    h.exists_runs sources
  refine ⟨t', tests', references', hruns, h.finds, rfl, h.tests.document, h.references.document,
    h'.tests.document, h'.references.document, ?_, ?_, htests, rs, hsubjects, hreferences⟩
  · rw [h.tests.fits.modelCount_of_records htests]
    simp [Scan.report, Nat.mul_comm]
  · have hlength : rs.length = sources.length * (3 * scan.models.length) := by
      have hmap := congrArg List.length hsubjects
      rwa [List.length_map, List.length_flatten, List.map_replicate, List.sum_replicate_nat,
        length_flatMap_subjects] at hmap
    rw [h.references.fits.modelCount_of_records hreferences,
      h.references.fits.sections_references, List.length_map, hlength]
    simp only [Scan.report]
    rw [Nat.one_mul, Nat.mul_left_comm, Nat.mul_assoc]

/-- A run that leaves a document that cannot be read is the last that succeeds. -/
theorem Suits.exists_runs_fail (h : job.Suits t)
    (htests : t.document job.testConf .tests = .ok tests)
    (hreferences : t.document job.refsConf .references = .ok references)
    (hscan : t.scan job.filter job.irCacheDir = .ok scan)
    (htexts : ¬ (tests.root.HasTexts ∧ references.root.HasTexts)) (w : WordSource)
    (sources : List WordSource) : ∃ p ∈ [job.testConf, job.refsConf], ∃ t',
      job.runs (w :: sources) t =
        (.ok scan.report :: List.replicate sources.length (.error (.malformed p)), t') := by
  obtain ⟨report, t', hrun⟩ :=
    exists_runOn htests hreferences hscan h.accepts_tests h.accepts_references w
  obtain ⟨scan', tests', references', rs, rfl, hstored⟩ := exists_stored hrun
  obtain rfl := Except.ok.inj (htests.symm.trans hstored.loads_tests)
  obtain rfl := Except.ok.inj (hreferences.symm.trans hstored.loads_references)
  obtain rfl := Except.ok.inj (hscan.symm.trans hstored.finds)
  have hnot : ¬ job.HasTexts t scan tests references := fun h' =>
    htexts ⟨h'.tests.resolve_left h.different, h'.references⟩
  obtain ⟨p, hp, hnext⟩ := hstored.exists_fails h.unprefixed hnot
  refine ⟨p, hp, t', ?_⟩
  rw [runs, hrun]
  simp only [runs_of_runOn hnext sources]

/-- A generation that succeeds once succeeds any number of times, whatever words are drawn, with the
same report, and each time the documents get the records of the models found, if the texts of the
documents may stand in a document of any version. If some may not, it succeeds once, and fails from
then on at a document that it has written and cannot read. -/
theorem runs_repeat (h : job.Suits t) {w : WordSource} {report : GenerationReport}
    (hrun : (job.runOn w t).1 = .ok report) : ∃ scan tests references,
      job.Loaded t tests references ∧
      (tests.root.HasTexts → references.root.HasTexts → ∀ sources, ∃ t' tests' references',
        job.runs sources t = (List.replicate sources.length (.ok report), t') ∧
        job.Repeated sources.length report scan t t' tests references tests' references') ∧
      (¬ (tests.root.HasTexts ∧ references.root.HasTexts) → ∀ first sources,
        ∃ p ∈ [job.testConf, job.refsConf], ∃ t', job.runs (first :: sources) t =
          (.ok report :: List.replicate sources.length (.error (.malformed p)), t')) := by
  obtain ⟨scan, tests, references, rs, rfl, hstored⟩ := exists_stored (Prod.ext hrun rfl)
  have htests := hstored.loads_tests
  have hreferences := hstored.loads_references
  refine ⟨scan, tests, references, hstored.loaded h.unprefixed, fun htexts htexts' => ?_, ?_⟩
  · have hready : job.Ready scan t tests references :=
      ⟨keeps_of_document htests htexts h.unprefixed.tests h.accepts_tests,
        keeps_of_document hreferences htexts' h.unprefixed.references h.accepts_references,
        h.different, hstored.finds, h.hasTexts hstored.finds⟩
    exact hready.exists_repeated
  · exact h.exists_runs_fail htests hreferences hstored.finds

section Small

theorem suits_smallTree : smallJob.Suits smallTree := by
  refine ⟨unprefixed_of_files tests_smallTree references_smallTree hasNoPrefixes_smallFile
    hasNoPrefixes_smallFile, ?_, tests_smallTree.accepts_iff.2 ⟨rfl, rfl⟩,
    references_smallTree.accepts_iff.2 ⟨rfl, rfl⟩, hasTexts_smallCache rfl⟩
  rw [FileTree.sameFile_iff tests_smallTree references_smallTree]
  decide

theorem suits_laterTree : smallJob.Suits laterTree := by
  refine ⟨unprefixed_of_files tests_laterTree references_laterTree hasNoPrefixes_laterText
    hasNoPrefixes_smallFile, ?_, tests_laterTree.accepts_iff.2 ⟨rfl, rfl⟩,
    references_laterTree.accepts_iff.2 ⟨rfl, rfl⟩, hasTexts_smallCache rfl⟩
  rw [FileTree.sameFile_iff tests_laterTree references_laterTree]
  decide

/-- The first run of a small cache succeeds. -/
theorem Suits.run_smallCache (h : smallJob.Suits t)
    (htests : t.document smallJob.testConf .tests = .ok tests)
    (hreferences : t.document smallJob.refsConf .references = .ok references)
    (hscan : t.scan {} smallJob.irCacheDir = .ok smallScan) (w : WordSource) :
    (smallJob.runOn w t).1 = .ok smallScan.report := by
  obtain ⟨report, t', hrun⟩ :=
    exists_runOn htests hreferences hscan h.accepts_tests h.accepts_references w
  obtain ⟨scan, _, _, _, rfl, hstored⟩ := exists_stored hrun
  obtain rfl := Except.ok.inj (hscan.symm.trans hstored.finds)
  rw [hrun]

theorem run_smallTree : (smallJob.runOn (.ofSeed 0) smallTree).1 = .ok smallScan.report :=
  suits_smallTree.run_smallCache
    (keeps_smallFile tests_smallTree suits_smallTree.accepts_tests).document
    (keeps_smallFile references_smallTree suits_smallTree.accepts_references).document
    scan_smallTree _

theorem run_laterTree : (smallJob.runOn (.ofSeed 0) laterTree).1 = .ok smallScan.report :=
  suits_laterTree.run_smallCache document_laterTree
    (keeps_smallFile references_laterTree suits_laterTree.accepts_references).document
    (scan_smallCache rfl) _

/-- Two runs from a small tree succeed. Of three runs from one with a document of the second version
only the first does. -/
theorem smallTree_repeat :
    (smallJob.Suits smallTree ∧ (smallJob.runOn (.ofSeed 0) smallTree).1 = .ok smallScan.report ∧
      ∃ scan t' tests references tests' references',
        smallJob.runs [.ofSeed 1, .ofSeed 2] smallTree =
          ([.ok smallScan.report, .ok smallScan.report], t') ∧
        smallJob.Repeated 2 smallScan.report scan smallTree t' tests references tests'
          references') ∧
    smallJob.Suits laterTree ∧ (smallJob.runOn (.ofSeed 0) laterTree).1 = .ok smallScan.report ∧
      ∃ p ∈ [smallJob.testConf, smallJob.refsConf], ∃ t',
        smallJob.runs [.ofSeed 0, .ofSeed 1, .ofSeed 2] laterTree =
          ([.ok smallScan.report, .error (.malformed p), .error (.malformed p)], t') := by
  refine ⟨⟨suits_smallTree, run_smallTree, ?_⟩, suits_laterTree, run_laterTree, ?_⟩
  · obtain ⟨scan, tests, references, hloaded, hruns, -⟩ :=
      runs_repeat suits_smallTree run_smallTree
    obtain ⟨t', tests', references', hruns⟩ := hruns
      (hloaded.texts_tests (isFirst_of_smallFile tests_smallTree))
      (hloaded.texts_references (isFirst_of_smallFile references_smallTree))
      [.ofSeed 1, .ofSeed 2]
    exact ⟨scan, t', tests, references, tests', references', hruns⟩
  · obtain ⟨scan, tests, references, hloaded, -, hfails⟩ :=
      runs_repeat suits_laterTree run_laterTree
    obtain rfl := Except.ok.inj (document_laterTree.symm.trans hloaded.loads_tests)
    exact hfails (fun h => not_hasTexts_laterRoot h.1) (.ofSeed 0) [.ofSeed 1, .ofSeed 2]

end Small

end Job

end ModelIR
