import ModelIR.Proofs.CoherentTrees
import ModelIR.Proofs.RereadRuns

/-!
# Documents that share a file

The paths of both documents of a job may lead to one file: they may be equal, one of them may be
that of a link, or they may be two names of the file. Both documents are loaded before one is saved,
and that of references is saved last. So the file then holds the records of references behind those
that it had, and not those of the models (`Job.runOn_stored`).
-/

namespace ModelIR

open Xml

namespace Document

variable {p : Path} {kind : DocumentKind} {d : Document} {rs : List Element}

theorem exists_ofBytes (hplain : d.root.Plain) (hfits : d.Fits kind)
    (hrs : ∀ r ∈ rs, r.Plain ∧ r.tag.name = recordName) : ∃ d',
      ofBytes p (rs.foldl append d).bytes kind = .ok d' ∧
        d'.records = d.records.map (· ++ rs.map Element.tag) := by
  have hroot : (rs.foldl append d).root.Plain :=
    (plain_foldl_append_iff hfits).2 ⟨hplain, fun r hr => (hrs r hr).1⟩
  refine ⟨_, ofBytes_print (p := p) hroot (hfits.foldl_append rs), ?_⟩
  rw [← records_foldl_append d fun r hr => (hrs r hr).2]
  exact records_settled _

end Document

namespace Job

variable {job : Job} {t t' : FileTree} {w : WordSource} {report : GenerationReport} {scan : Scan}
  {tests references : Document} {rs : List ReferenceRecord}

/-- What is loaded of the documents behind a generation: that of tests has the records of the models
behind those that it had, or the records of references if it is in the same file as that of
references. -/
structure Reloaded (job : Job) (t t' : FileTree) (scan : Scan) (tests references : Document)
    (rs : List ReferenceRecord) (tests' references' : Document) : Prop where
  loads_tests : t'.document job.testConf .tests = .ok tests'
  loads_references : t'.document job.refsConf .references = .ok references'
  records_references :
    references'.records = references.records.map (· ++ rs.map ReferenceRecord.recordTag)
  records_tests : ¬ t.SameFile job.testConf job.refsConf →
    tests'.records = tests.records.map (· ++ scan.models.map Model.recordTag)
  records_shared : t.SameFile job.testConf job.refsConf →
    tests'.records = tests.records.map (· ++ rs.map ReferenceRecord.recordTag)

/-- Documents in one file have the same records. -/
theorem Stored.records_eq (h : job.Stored t t' scan tests references rs) (hcoherent : t.Coherent)
    (hsame : t.SameFile job.testConf job.refsConf) : tests.records = references.records := by
  obtain ⟨location, f, other, g, hfile₁, hfile₂, hsame⟩ := hsame
  obtain rfl : g = f := by
    rcases hsame with rfl | htwin
    · exact Entry.file.inj (Option.some.inj (hfile₂.at?.symm.trans hfile₁.at?))
    · exact hcoherent f (Entry.mem_files_of_at? hfile₁.at?) g
        (Entry.mem_files_of_at? hfile₂.at?) htwin
  have htests := h.loads_tests
  have hreferences := h.loads_references
  rw [FileTree.document, hfile₁.opened] at htests
  rw [FileTree.document, hfile₂.opened] at hreferences
  obtain ⟨hparse₁, -, hfits₁⟩ := Document.of_ofBytes htests
  obtain ⟨hparse₂, -, hfits₂⟩ := Document.of_ofBytes hreferences
  have hroot : tests.root = references.root := Option.some.inj (hparse₁.symm.trans hparse₂)
  have hcontainer : tests.container = references.container := by
    rw [Document.Fits, hroot] at hfits₁
    exact Option.some.inj (hfits₁.symm.trans hfits₂.of_references)
  simp only [Document.records, Document.holders, hroot, hcontainer]

theorem Stored.exists_reloaded (h : job.Stored t t' scan tests references rs)
    (hcoherent : t.Coherent) (hdocuments : job.Unprefixed t)
    (htexts : job.HasTexts t scan tests references) :
    ∃ tests' references', job.Reloaded t t' scan tests references rs tests' references' := by
  obtain ⟨hany₁, hfits₁⟩ := Document.plain_of_document h.loads_tests hdocuments.tests
  obtain ⟨hany₂, hfits₂⟩ := Document.plain_of_document h.loads_references hdocuments.references
  have hplain₂ := hany₂.plain_iff.2 htexts.references
  have hmodels : ∀ model ∈ scan.models, model.HasTexts := fun model hmodel =>
    Model.hasTexts_of_path (FileTree.exists_ofPath_of_scan h.finds model hmodel)
      (htexts.paths model hmodel)
  have hrs := plain_referenceRecords hmodels h.subjects
  obtain ⟨references', hreferences', hrecords⟩ :=
    Document.exists_ofBytes (p := job.refsConf) hplain₂ hfits₂ hrs
  rw [List.map_map] at hrecords
  have hloads : t'.document job.refsConf .references = .ok references' := by
    rw [FileTree.document, h.opened_references]
    exact hreferences'
  by_cases hsame : t.SameFile job.testConf job.refsConf
  · obtain ⟨tests', htests', hrecords'⟩ :=
      Document.exists_ofBytes (p := job.testConf) hplain₂ hfits₂.of_references hrs
    rw [List.map_map, ← h.records_eq hcoherent hsame] at hrecords'
    refine ⟨tests', references', ?_, hloads, hrecords, fun hne => absurd hsame hne,
      fun _ => hrecords'⟩
    rw [FileTree.document, h.opened_shared hsame]
    exact htests'
  · have hplain₁ := hany₁.plain_iff.2 (htexts.tests.resolve_left hsame)
    obtain ⟨tests', htests', hrecords'⟩ :=
      Document.exists_ofBytes (p := job.testConf) hplain₁ hfits₁ (plain_modelRecords hmodels)
    rw [List.map_map] at hrecords'
    refine ⟨tests', references', ?_, hloads, hrecords, fun _ => hrecords',
      fun heq => absurd heq hsame⟩
    rw [FileTree.document, h.opened_tests hsame]
    exact htests'

/-- The records of the models are in the document of tests if there are none, or if the documents
are in different files: one element that holds the records of a shared file gets three for one. -/
theorem Reloaded.records_tests_iff {tests' references' : Document}
    (h : job.Stored t t' scan tests references rs) (hcoherent : t.Coherent)
    (h' : job.Reloaded t t' scan tests references rs tests' references') :
    tests'.records = tests.records.map (· ++ scan.models.map Model.recordTag) ↔
      ¬ t.SameFile job.testConf job.refsConf ∨ scan.models = [] := by
  have hlength := h.length_references
  constructor
  · intro hrecords
    by_contra hnot
    rw [not_or, not_not] at hnot
    obtain ⟨hsame, hmodels⟩ := hnot
    rw [h'.records_shared hsame, h.records_eq hcoherent hsame] at hrecords
    have hfits := (Document.of_ofOpened h.loads_references).2
    have hsections := hfits.length_holders.trans hfits.sections_references
    obtain ⟨holder, hholder⟩ := List.length_eq_one_iff.1 hsections
    rw [Document.records, hholder] at hrecords
    have hcount := congrArg List.length (List.append_cancel_left (List.cons.inj hrecords).1)
    rw [List.length_map, List.length_map, hlength] at hcount
    have hpos := List.length_pos_iff.2 hmodels
    omega
  · rintro (hne | hmodels)
    · exact h'.records_tests hne
    · by_cases hsame : t.SameFile job.testConf job.refsConf
      · rw [hmodels, List.length_nil, Nat.mul_zero, List.length_eq_zero_iff] at hlength
        rw [h'.records_shared hsame, hmodels, hlength]
        rfl
      · exact h'.records_tests hsame

/-- A generation that succeeds stores the records of references in their document. It stores those
of the models in that of tests, unless both documents are in one file, by one path, by a link or by
two names of the file: then they are lost, if there are any. What is stored is loaded again if it
may stand in a document of any version. -/
theorem runOn_stored (h : job.runOn w t = (.ok report, t')) : ∃ scan tests references rs,
    report = scan.report ∧ job.Stored t t' scan tests references rs ∧
    (t.Coherent → job.Unprefixed t → job.HasTexts t scan tests references →
      ∃ tests' references', job.Reloaded t t' scan tests references rs tests' references' ∧
        (tests'.records = tests.records.map (· ++ scan.models.map Model.recordTag) ↔
          ¬ t.SameFile job.testConf job.refsConf ∨ scan.models = [])) := by
  obtain ⟨scan, tests, references, rs, hreport, hstored⟩ := exists_stored h
  refine ⟨scan, tests, references, rs, hreport, hstored, fun hcoherent hdocuments htexts => ?_⟩
  obtain ⟨tests', references', hreloaded⟩ := hstored.exists_reloaded hcoherent hdocuments htexts
  exact ⟨tests', references', hreloaded, hreloaded.records_tests_iff hstored hcoherent⟩

section Linked

/-- A tree of a small cache and a document of references, to which the path of that of tests is a
link. -/
def linkedTree : FileTree where
  root := .dir [([0x63], smallCache), ([0x72], .file smallFile), ([0x74], .link ⟨[0x2F, 0x72]⟩)]

theorem tests_linkedTree : linkedTree.HasFile smallJob.testConf [[0x72]] smallFile :=
  rfl

theorem references_linkedTree : linkedTree.HasFile smallJob.refsConf [[0x72]] smallFile :=
  rfl

theorem unprefixed_linkedTree : smallJob.Unprefixed linkedTree :=
  unprefixed_of_files tests_linkedTree references_linkedTree hasNoPrefixes_smallFile
    hasNoPrefixes_smallFile

theorem coherent_linkedTree : linkedTree.Coherent := by
  have hfiles : linkedTree.root.files = [{}, smallFile] := rfl
  intro f hf g hg htwin
  rw [hfiles] at hf hg
  have hinode : g.inode = none := by
    simp only [List.mem_cons, List.not_mem_nil, or_false] at hg
    rcases hg with rfl | rfl <;> rfl
  rw [File.isTwin, hinode] at htwin
  exact absurd htwin Bool.false_ne_true

/-- A generation that reports a record of a model, and behind which the document of tests lacks it.
-/
theorem linkedTree_stored : ∃ report t' tests references rs tests' references',
    linkedTree.SameFile smallJob.testConf smallJob.refsConf ∧ linkedTree.Coherent ∧
    smallJob.Unprefixed linkedTree ∧ smallJob.runOn (.ofSeed 0) linkedTree = (.ok report, t') ∧
    report.modelRecords = 1 ∧ report.referenceRecords = 3 ∧
    smallJob.HasTexts linkedTree smallScan tests references ∧
    smallJob.Reloaded linkedTree t' smallScan tests references rs tests' references' ∧
    tests'.records ≠ tests.records.map (· ++ smallScan.models.map Model.recordTag) := by
  have haccepts : linkedTree.Accepts smallJob.testConf := tests_linkedTree.accepts_iff.2 ⟨rfl, rfl⟩
  have haccepts' : linkedTree.Accepts smallJob.refsConf :=
    references_linkedTree.accepts_iff.2 ⟨rfl, rfl⟩
  have hscan : linkedTree.scan smallJob.filter smallJob.irCacheDir = .ok smallScan :=
    scan_smallCache rfl
  have hsame : linkedTree.SameFile smallJob.testConf smallJob.refsConf :=
    ⟨_, _, _, _, tests_linkedTree, references_linkedTree, .inl rfl⟩
  obtain ⟨report, t', hrun⟩ := exists_runOn (keeps_smallFile tests_linkedTree haccepts).document
    (keeps_smallFile references_linkedTree haccepts').document hscan haccepts haccepts' (.ofSeed 0)
  obtain ⟨scan, tests, references, rs, rfl, hstored, hreloads⟩ := runOn_stored hrun
  obtain rfl := Except.ok.inj (hscan.symm.trans hstored.finds)
  have hpaths : ∀ model ∈ smallScan.models, IsText model.path.toText := by
    intro model hmodel
    obtain rfl := List.mem_singleton.1 hmodel
    decide +kernel
  have hloaded := hstored.loaded unprefixed_linkedTree
  have htexts : smallJob.HasTexts linkedTree smallScan tests references :=
    ⟨hpaths, hloaded.texts_references (isFirst_of_smallFile references_linkedTree), .inl hsame⟩
  obtain ⟨tests', references', hreloaded, hiff⟩ :=
    hreloads coherent_linkedTree unprefixed_linkedTree htexts
  refine ⟨_, t', tests, references, rs, tests', references', hsame, coherent_linkedTree,
    unprefixed_linkedTree, hrun, rfl, rfl, htexts, hreloaded, hiff.not.2 ?_⟩
  exact not_or.2 ⟨not_not.2 hsame, List.cons_ne_nil _ _⟩

/-- A file with two names. -/
def twinTree : FileTree where
  root := .dir [([0x72], .file { inode := some 0 }), ([0x74], .file { inode := some 0 })]

example : twinTree.SameFile smallJob.testConf smallJob.refsConf :=
  ⟨[[0x74]], { inode := some 0 }, [[0x72]], { inode := some 0 }, rfl, rfl, .inr rfl⟩

end Linked

end Job

end ModelIR
