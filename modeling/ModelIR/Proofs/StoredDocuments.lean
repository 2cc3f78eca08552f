import ModelIR.Proofs.KeptDocuments

/-!
# What a generation stores

Both documents are loaded before one is saved, and that of references is saved last. Of two files
each has its new content then, and one file to which both paths lead has that of the references
(`FileTree.HasFile.opened_save_save`). So what is in the files behind a generation that succeeds is
known from what it has loaded and found (`Job.exists_stored`).
-/

namespace ModelIR

open Xml

namespace Document

variable {p : Path} {kind : DocumentKind} {d : Document}

theorem Fits.of_references (h : d.Fits .references) : d.Fits .tests := by
  rw [Fits, Container.ofRoot?] at h ⊢
  split_ifs at h with hmodels
  · rw [if_pos hmodels]
    exact h
  · next hdevices => simp at hdevices

/-- The document with the records of models. -/
def withModels (d : Document) (models : List Model) : Document :=
  (models.map fun model => (ModelRecord.ofModel model).toElement).foldl append d

/-- The document with records of references. -/
def withReferences (d : Document) (rs : List ReferenceRecord) : Document :=
  (rs.map ReferenceRecord.toElement).foldl append d

end Document

/-! ## Files that are loaded and saved -/

namespace FileTree

variable {t t₁ t₂ : FileTree} {p q : Path} {location other : Location} {f g : File}
  {kind : DocumentKind}
  {d : Document}

theorem exists_hasFile (h : t.document p kind = .ok d) :
    ∃ location f, t.HasFile p location f ∧ Document.ofBytes p f.content kind = .ok d := by
  rw [document, opened] at h
  rcases hresolve : t.resolve p
    with e | (⟨location, f | target | entries⟩ | ⟨d, n⟩ | ⟨d, target, rest⟩)
  all_goals rw [hresolve] at h
  case ok.found.file => exact ⟨location, f, hresolve, h⟩
  all_goals cases h

/-- Of two files that are saved, each has its new content if they are different, and else that of
the second. -/
theorem HasFile.opened_save_save (hp : t.HasFile p location f) (hq : t.HasFile q other g)
    {content content' : ByteArray} (hsave : t.save p content = (.ok (), t₁))
    (hsave' : t₁.save q content' = (.ok (), t₂)) : t₂.opened q = .ok (.file content') ∧
      (t.SameFile p q → t₂.opened p = .ok (.file content')) ∧
      (¬ t.SameFile p q → t₂.opened p = .ok (.file content)) := by
  have hok : (t.save p content).1 = .ok () := by rw [hsave]
  have hok' : (t₁.save q content').1 = .ok () := by rw [hsave']
  have hp₁ := hp.hasFile_save hok
  have hshape := hp.shape_save hok
  obtain ⟨g', hq₁⟩ : ∃ g', (t.save p content).2.HasFile q other g' := by
    obtain ⟨g', hq₁, -⟩ := hq.exists_of_shape hshape
    exact ⟨g', hq₁⟩
  rw [hsave] at hp₁ hq₁ hshape
  have hq₂ := hq₁.hasFile_save hok'
  rw [hsave'] at hq₂
  have hsymm : t₁.SameFile q p ↔ t.SameFile p q :=
    ⟨fun h => (sameFile_of_shape hshape).1 h.symm, fun h => (sameFile_of_shape hshape).2 h |>.symm⟩
  refine ⟨hq₂.opened, fun hsame => ?_, fun hne => ?_⟩
  · have hp₂ := hq₁.hasFile_save_same hok' hp₁ (hsymm.2 hsame)
    rw [hsave'] at hp₂
    exact hp₂.opened
  · have hp₂ := hq₁.hasFile_save_other hok' hp₁ (hsymm.not.2 hne)
    rw [hsave'] at hp₂
    exact hp₂.opened

theorem HasFile.accepts_save (hp : t.HasFile p location f) (hq : t.HasFile q other g)
    (hacceptsp : t.Accepts p) (hacceptsq : t.Accepts q) (content : ByteArray) :
    (t.save p content).2.Accepts q := by
  have haccepts := hq.accepts_iff.1 hacceptsq
  by_cases hsame : t.SameFile p q
  · exact (hp.hasFile_save_same (hacceptsp content) hq hsame).accepts_iff.2 haccepts
  · exact (hp.hasFile_save_other (hacceptsp content) hq hsame).accepts_iff.2 haccepts

end FileTree

/-- What is loaded of a document that declares no namespace and uses no prefixed names. -/
theorem Document.plain_of_document {t : FileTree} {p : Path} {kind : DocumentKind} {d : Document}
    (h : t.document p kind = .ok d)
    (hprefixes : ∀ bytes, t.opened p = .ok (.file bytes) → HasNoPrefixes bytes) :
    d.root.PlainWith anyChar ∧ d.Fits kind := by
  obtain ⟨location, f, hfile, hbytes⟩ := FileTree.exists_hasFile h
  obtain ⟨hparse, -, hfits⟩ := of_ofBytes hbytes
  exact ⟨plainWith_of_parse (hprefixes _ hfile.opened) hparse, hfits⟩

theorem FileTree.exists_ofPath_of_scan {t : FileTree} {f : Filter} {dir : Path} {scan : Scan}
    (h : t.scan f dir = .ok scan) :
      ∀ model ∈ scan.models, ∃ path, Model.ofPath path = .ok model := by
  intro model hmodel
  obtain ⟨path, -, -, hpath⟩ := Scan.exists_of_ofVisits (ofVisits_of_scan h) model hmodel
  exact ⟨path, hpath⟩

/-- A path that leads to a document of the first version, if to any. -/
def FileTree.IsFirst (t : FileTree) (p : Path) : Prop :=
  ∀ bytes, t.opened p = .ok (.file bytes) → versionOf? bytes = some .one

theorem Document.hasTexts_of_document {t : FileTree} {p : Path} {kind : DocumentKind}
    {d : Document} (h : t.document p kind = .ok d)
    (hprefixes : ∀ bytes, t.opened p = .ok (.file bytes) → HasNoPrefixes bytes)
    (hfirst : t.IsFirst p) : d.root.HasTexts := by
  obtain ⟨location, f, hfile, hbytes⟩ := FileTree.exists_hasFile h
  exact hasTexts_of_parse (hprefixes _ hfile.opened) (of_ofBytes hbytes).1
    (hfirst _ hfile.opened)

/-! ## Generations -/

namespace Job

variable {job : Job} {t t' : FileTree} {w : WordSource} {report : GenerationReport} {scan : Scan}
  {tests references : Document} {rs : List ReferenceRecord}

/-- The documents of a job declare no namespace and use no prefixed names, if they are there. -/
structure Unprefixed (job : Job) (t : FileTree) : Prop where
  tests : ∀ bytes, t.opened job.testConf = .ok (.file bytes) → HasNoPrefixes bytes
  references : ∀ bytes, t.opened job.refsConf = .ok (.file bytes) → HasNoPrefixes bytes

theorem unprefixed_of_files {location other : Location} {f g : File}
    (hp : t.HasFile job.testConf location f) (hq : t.HasFile job.refsConf other g)
    (hf : HasNoPrefixes f.content) (hg : HasNoPrefixes g.content) : job.Unprefixed t where
  tests bytes hbytes := by
    rw [hp.opened] at hbytes
    exact (Opened.file.inj (Except.ok.inj hbytes)) ▸ hf
  references bytes hbytes := by
    rw [hq.opened] at hbytes
    exact (Opened.file.inj (Except.ok.inj hbytes)) ▸ hg

/-- What is loaded of the documents of a job. The texts of a document of the first version may stand
in a document of any version. -/
structure Loaded (job : Job) (t : FileTree) (tests references : Document) : Prop where
  loads_tests : t.document job.testConf .tests = .ok tests
  loads_references : t.document job.refsConf .references = .ok references
  texts_tests : t.IsFirst job.testConf → tests.root.HasTexts
  texts_references : t.IsFirst job.refsConf → references.root.HasTexts

/-- What a generation that succeeds loads and finds, and what is in the files of the documents then.
-/
structure Stored (job : Job) (t t' : FileTree) (scan : Scan) (tests references : Document)
    (rs : List ReferenceRecord) : Prop where
  loads_tests : t.document job.testConf .tests = .ok tests
  loads_references : t.document job.refsConf .references = .ok references
  finds : t.scan job.filter job.irCacheDir = .ok scan
  subjects : rs.map ReferenceRecord.subject = scan.models.flatMap Model.subjects
  opened_references : t'.opened job.refsConf = .ok (.file (references.withReferences rs).bytes)
  opened_tests : ¬ t.SameFile job.testConf job.refsConf →
    t'.opened job.testConf = .ok (.file (tests.withModels scan.models).bytes)
  opened_shared : t.SameFile job.testConf job.refsConf →
    t'.opened job.testConf = .ok (.file (references.withReferences rs).bytes)

/-- A generation that succeeds reports the records of the models found, and stores them. -/
theorem exists_stored (h : job.runOn w t = (.ok report, t')) : ∃ scan tests references rs,
    report = scan.report ∧ job.Stored t t' scan tests references rs := by
  obtain ⟨tests, references, scan, d, t₁, htests, hreferences, hscan, hadds, hsave₁, hsave₂,
    hreport⟩ := exists_of_runOn h
  obtain ⟨rs, hsubjects, hrs⟩ := hadds.references
  have hds := hadds.tests
  obtain ⟨location₁, file₁, hfile₁, -⟩ := FileTree.exists_hasFile htests
  obtain ⟨location₂, file₂, hfile₂, -⟩ := FileTree.exists_hasFile hreferences
  have hpath₁ := hadds.path_tests.trans (Document.of_ofOpened htests).1
  have hpath₂ := hadds.path_references.trans (Document.of_ofOpened hreferences).1
  replace hsave₁ := FileTree.save_of_saveDocument hsave₁
  replace hsave₂ := FileTree.save_of_saveDocument hsave₂
  rw [hpath₁, hds] at hsave₁
  rw [hpath₂, hrs] at hsave₂
  obtain ⟨hopened₂, hsame, hne⟩ := hfile₁.opened_save_save hfile₂ hsave₁ hsave₂
  exact ⟨scan, tests, references, rs, hreport, htests, hreferences, hscan, hsubjects, hopened₂,
    hne, hsame⟩

theorem Stored.loaded (h : job.Stored t t' scan tests references rs)
    (hdocuments : job.Unprefixed t) : job.Loaded t tests references :=
  ⟨h.loads_tests, h.loads_references,
    Document.hasTexts_of_document h.loads_tests hdocuments.tests,
    Document.hasTexts_of_document h.loads_references hdocuments.references⟩

theorem Stored.length_references (h : job.Stored t t' scan tests references rs) :
    rs.length = 3 * scan.models.length :=
  length_of_subjects h.subjects

/-- A generation succeeds if both documents load and take any content, and the scan succeeds. -/
theorem exists_runOn {tests references : Document} {scan : Scan}
    (htests : t.document job.testConf .tests = .ok tests)
    (hreferences : t.document job.refsConf .references = .ok references)
    (hscan : t.scan job.filter job.irCacheDir = .ok scan) (haccepts : t.Accepts job.testConf)
    (haccepts' : t.Accepts job.refsConf) (w : WordSource) :
    ∃ report t', job.runOn w t = (.ok report, t') := by
  obtain ⟨location₁, file₁, hfile₁, -⟩ := FileTree.exists_hasFile htests
  obtain ⟨location₂, file₂, hfile₂, -⟩ := FileTree.exists_hasFile hreferences
  obtain ⟨d, w', hd, hadds⟩ := Manifests.exists_addModels { tests, references } scan.models w
  have hpath₁ := hadds.path_tests.trans (Document.of_ofOpened htests).1
  have hpath₂ := hadds.path_references.trans (Document.of_ofOpened hreferences).1
  have hsave₁ := haccepts d.tests.bytes
  have hsave₂ :=
    hfile₁.accepts_save hfile₂ haccepts haccepts' d.tests.bytes d.references.bytes
  rw [runOn_eq]
  simp only [htests, hreferences, hscan, hd, FileTree.saveDocument, hpath₁, hpath₂, hsave₁, hsave₂,
    Except.mapError]
  exact ⟨_, _, rfl⟩

end Job

end ModelIR
