import ModelIR.Proofs.GenerationRun
import ModelIR.Proofs.ReadDocuments
import ModelIR.Proofs.SavedFiles

/-!
# Documents that are kept

A document that is saved where a plain one is kept is kept there, settled, and what is kept in other
files stays (`FileTree.Keeps.save`). So a generation with two such documents, in different files,
succeeds, adds its records, and leaves all as ready for the next as it was (`Ready.exists_runOn`).
-/

namespace ModelIR

open Xml

variable {t t' : FileTree} {p q : Path} {location : Location} {kind : DocumentKind} {d : Document}

/-- A plain document that is written is read back, settled. -/
theorem Document.ofBytes_print {root : Element} {container : Container} (hplain : root.Plain)
    (hfits : Fits ⟨p, root, container⟩ kind) :
    ofBytes p root.print.toUTF8 kind = .ok ⟨p, root.settled, container⟩ := by
  rw [ofBytes, parse_print hplain]
  exact ofElement_eq_ok_iff.2 ⟨rfl, rfl, hfits.settled⟩

/-- A path that leads to a file with a plain document, which takes any content. -/
structure FileTree.Keeps (t : FileTree) (p : Path) (kind : DocumentKind) (d : Document) : Prop where
  file : ∃ location f, t.HasFile p location f ∧ Document.ofBytes p f.content kind = .ok d
  plain : d.root.Plain
  accepts : t.Accepts p

namespace FileTree

theorem Keeps.document (h : t.Keeps p kind d) : t.document p kind = .ok d := by
  obtain ⟨location, f, hfile, hbytes⟩ := h.file
  rw [FileTree.document, hfile.opened]
  exact hbytes

theorem Keeps.path (h : t.Keeps p kind d) : d.path = p :=
  (Document.of_ofOpened h.document).1

theorem Keeps.fits (h : t.Keeps p kind d) : d.Fits kind :=
  (Document.of_ofOpened h.document).2

/-- A document that is saved where one is kept is kept there, settled. -/
theorem Keeps.save (h : t.Keeps p kind d) (d' : Document) (hpath : d'.path = p)
    (hfits : d'.Fits kind) (hplain : d'.root.Plain) :
    ∃ t', t.saveDocument d' = (.ok (), t') ∧ t'.shape = t.shape ∧ t'.Keeps p kind d'.settled ∧
      ∀ {q kind' e}, t.Keeps q kind' e → ¬ t.SameFile p q → t'.Keeps q kind' e := by
  obtain ⟨location, f, hfile, -⟩ := h.file
  subst hpath
  have hsaved := hfile.hasFile_save (h.accepts d'.bytes)
  have hread : Document.ofBytes d'.path d'.bytes kind = .ok d'.settled :=
    Document.ofBytes_print hplain hfits
  refine ⟨(t.save d'.path d'.bytes).2, ?_, hfile.shape_save (h.accepts _), ⟨?_, ?_, ?_⟩, ?_⟩
  · rw [saveDocument, h.accepts d'.bytes]
    rfl
  · refine ⟨location, _, hsaved, ?_⟩
    dsimp only
    exact hread
  · exact Node.PlainWith.settled (by decide) hplain
  · exact hsaved.accepts_iff.2 (hfile.accepts_iff.1 h.accepts)
  · intro q kind' e he hne
    obtain ⟨other, g, hg, hbytes⟩ := he.file
    have hother := hfile.hasFile_save_other (h.accepts d'.bytes) hg hne
    exact ⟨⟨other, g, hother, hbytes⟩, he.plain,
      hother.accepts_iff.2 (hg.accepts_iff.1 he.accepts)⟩

/-- Records that are added to a document that is kept stand behind those that it had. -/
theorem Keeps.exists_saved (h : t.Keeps p kind d) {rs : List Element}
    (hrs : ∀ r ∈ rs, r.Plain ∧ r.tag.name = recordName) : ∃ t',
      t.saveDocument (rs.foldl Document.append d) = (.ok (), t') ∧ t'.shape = t.shape ∧
      t'.Keeps p kind (rs.foldl Document.append d).settled ∧
      (rs.foldl Document.append d).settled.records = d.records.map (· ++ rs.map Element.tag) ∧
      ∀ {q kind' e}, t.Keeps q kind' e → ¬ t.SameFile p q → t'.Keeps q kind' e := by
  obtain ⟨t', hsave, hshape, hkeeps, hothers⟩ := h.save (rs.foldl Document.append d)
    (by rw [Document.path_foldl_append, h.path]) (h.fits.foldl_append rs)
    ((Document.plain_foldl_append_iff h.fits).2 ⟨h.plain, fun r hr => (hrs r hr).1⟩)
  refine ⟨t', hsave, hshape, hkeeps, ?_, hothers⟩
  rw [Document.records_settled, Document.records_foldl_append _ fun r hr => (hrs r hr).2]

theorem scan_of_shape (h : t'.shape = t.shape) (f : Filter) (dir : Path) :
    t'.scan f dir = t.scan f dir := by
  rw [scan, scan, ← t'.present_shape, ← t'.visits_shape, h, t.present_shape, t.visits_shape]

end FileTree

namespace Job

/-- Both documents are kept, in different files, and the scan succeeds. -/
structure Ready (job : Job) (scan : Scan) (t : FileTree) (tests references : Document) : Prop where
  tests : t.Keeps job.testConf .tests tests
  references : t.Keeps job.refsConf .references references
  different : ¬ t.SameFile job.testConf job.refsConf
  finds : t.scan job.filter job.irCacheDir = .ok scan
  texts : ∀ model ∈ scan.models, model.HasTexts

variable {job : Job} {scan : Scan} {tests references : Document}

/-- A generation that is ready succeeds, adds the records of the models to the documents, and leaves
all ready for the next. -/
theorem Ready.exists_runOn (h : job.Ready scan t tests references) (w : WordSource) :
    ∃ t' tests' references', job.runOn w t = (.ok scan.report, t') ∧
      job.Ready scan t' tests' references' ∧
      tests'.records = tests.records.map (· ++ scan.models.map Model.recordTag) ∧
      ∃ rs : List ReferenceRecord,
        rs.map ReferenceRecord.subject = scan.models.flatMap Model.subjects ∧
          references'.records = references.records.map (· ++ rs.map ReferenceRecord.recordTag) := by
  obtain ⟨d, w', hd, hadds⟩ :=
    Manifests.exists_addModels { tests, references } scan.models w
  obtain ⟨rs, hsubjects, hreferences⟩ := hadds.references
  have htests := hadds.tests
  simp only at htests hreferences
  obtain ⟨t₁, hsave₁, hshape₁, hkeeps₁, hrecords₁, hothers₁⟩ :=
    h.tests.exists_saved (plain_modelRecords h.texts)
  have hreferences₁ := hothers₁ h.references h.different
  obtain ⟨t₂, hsave₂, hshape₂, hkeeps₂, hrecords₂, hothers₂⟩ :=
    hreferences₁.exists_saved (plain_referenceRecords h.texts hsubjects)
  rw [← htests] at hsave₁ hkeeps₁ hrecords₁
  rw [← hreferences] at hsave₂ hkeeps₂ hrecords₂
  have hshape : t₂.shape = t.shape := hshape₂.trans hshape₁
  have hdifferent₁ : ¬ t₁.SameFile job.refsConf job.testConf := fun hsame =>
    h.different ((FileTree.sameFile_of_shape hshape₁).1 hsame.symm)
  refine ⟨t₂, d.tests.settled, d.references.settled, ?_, ?_, ?_, rs, hsubjects, ?_⟩
  · rw [runOn_eq, h.tests.document, h.references.document, h.finds]
    simp only [hd, hsave₁, hsave₂, hadds.report]
    simp [Scan.report]
  · exact ⟨hothers₂ hkeeps₁ hdifferent₁, hkeeps₂,
      (FileTree.sameFile_of_shape hshape).not.2 h.different,
      (FileTree.scan_of_shape hshape _ _).trans h.finds, h.texts⟩
  · rw [hrecords₁, List.map_map]
    rfl
  · rw [hrecords₂, List.map_map]
    rfl

section Small

/-- A document without records. -/
def smallRoot : Element :=
  { tag := { name := "conf" }, children := [.element { name := containerName } []] }

/-- The file with this document. -/
def smallFile : File where
  content := smallRoot.print.toUTF8

/-- The name of a model. -/
def smallName : Name :=
  [0x6D, 0x2E, 0x78, 0x6D, 0x6C]

/-- A cache of one model, under five directories. -/
def smallCache : Entry :=
  .dir [([0x61], .dir [([0x61], .dir [([0x61], .dir [([0x61], .dir [([0x61],
    .dir [(smallName, .file {})])])])])])]

/-- A tree of this cache and two documents. -/
def smallTree : FileTree where
  root := .dir [([0x63], smallCache), ([0x72], .file smallFile), ([0x74], .file smallFile)]

/-- A job for this tree. -/
def smallJob : Job where
  testConf := ⟨[0x2F, 0x74]⟩
  refsConf := ⟨[0x2F, 0x72]⟩
  irCacheDir := ⟨[0x2F, 0x63]⟩

/-- The path of the model. -/
def smallPath : Path :=
  ⟨[0x2F, 0x63, 0x2F, 0x61, 0x2F, 0x61, 0x2F, 0x61, 0x2F, 0x61, 0x2F, 0x61, 0x2F] ++ smallName⟩

/-- What is found in the cache. -/
def smallScan : Scan where
  models := [⟨"m.xml", smallPath, .plain, "a", "a"⟩]
  filesVisited := 1

section SmallCache

variable (h : t.resolve smallJob.irCacheDir = .ok (.found [[0x63]] smallCache))

include h

theorem visits_smallCache : t.visits smallJob.irCacheDir = [.file smallPath smallName] := by
  rw [FileTree.visits, h]
  decide +kernel

theorem scan_smallCache : t.scan {} smallJob.irCacheDir = .ok smallScan := by
  have hpresent : t.present smallJob.irCacheDir = true := by rw [FileTree.present, h]
  rw [FileTree.scan, hpresent, visits_smallCache h]
  decide +kernel

theorem hasTexts_smallCache : Scan.HasTexts (t.visits smallJob.irCacheDir) := by
  intro path name hvisit
  rw [visits_smallCache h, List.mem_singleton] at hvisit
  obtain rfl := (Visit.file.inj hvisit).1
  decide +kernel

end SmallCache

theorem scan_smallTree : smallTree.scan {} smallJob.irCacheDir = .ok smallScan :=
  scan_smallCache rfl

theorem hasTexts_smallScan : ∀ model ∈ smallScan.models, model.HasTexts :=
  Scan.hasTexts_of_ofVisits (hasTexts_smallCache rfl) (FileTree.ofVisits_of_scan scan_smallTree)

theorem plain_smallRoot : smallRoot.Plain := by
  have htag : ∀ name : String, isName name.toList = true ∧ ':' ∉ name.toList →
      Tag.Plain { name } :=
    fun name h => ⟨⟨rfl, h.1, h.2⟩, rfl, rfl, List.nodup_nil, nofun⟩
  exact ⟨htag "conf" (by decide), ⟨htag containerName (by decide), trivial⟩, trivial⟩

theorem tests_smallTree : smallTree.HasFile smallJob.testConf [[0x74]] smallFile :=
  rfl

theorem references_smallTree : smallTree.HasFile smallJob.refsConf [[0x72]] smallFile :=
  rfl

theorem hasNoPrefixes_smallFile : HasNoPrefixes smallFile.content :=
  hasNoPrefixes_print plain_smallRoot

theorem ofBytes_smallFile :
    Document.ofBytes p smallFile.content kind = .ok ⟨p, smallRoot.settled, .models⟩ := by
  have hcontainer : smallRoot.children.any (·.isElement containerName) = true := by decide
  exact Document.ofBytes_print plain_smallRoot (if_pos hcontainer)

theorem keeps_smallFile (h : t.HasFile p location smallFile) (ha : t.Accepts p) :
    t.Keeps p kind ⟨p, smallRoot.settled, .models⟩ :=
  ⟨⟨location, smallFile, h, ofBytes_smallFile⟩, Node.PlainWith.settled (by decide) plain_smallRoot,
    ha⟩

/-- The file with a document of the second version. -/
def laterFile : File where
  content := laterText.toUTF8

/-- A tree of a small cache, a document of references, and one of tests of the second version. -/
def laterTree : FileTree where
  root := .dir [([0x63], smallCache), ([0x72], .file smallFile), ([0x74], .file laterFile)]

theorem tests_laterTree : laterTree.HasFile smallJob.testConf [[0x74]] laterFile :=
  rfl

theorem references_laterTree : laterTree.HasFile smallJob.refsConf [[0x72]] smallFile :=
  rfl

theorem document_laterTree :
    laterTree.document smallJob.testConf .tests = .ok ⟨smallJob.testConf, laterRoot, .models⟩ := by
  rw [FileTree.document, tests_laterTree.opened]
  exact Document.ofBytes_eq_ok_iff.2 ⟨parse_laterText, rfl, rfl⟩

end Small

end Job

end ModelIR
