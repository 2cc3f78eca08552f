import ModelIR.Proofs.StoredDocuments
import ModelIR.Proofs.UnreadableDocuments

/-!
# Reading what a generation leaves

The path of a model may be any bytes, and a document of the second version may hold characters that
one of the first may not. Both are written without a look at their characters, and what is written
is of the first version. So a document that a generation leaves is loaded again if the paths of all
models found and the texts that it had may stand in any document, and else it cannot be read
(`Job.Stored.loadsIf_references`, `Job.Stored.loadsIf_tests`), and the next generation fails
(`Job.runOn_reread`).
-/

namespace ModelIR

open Xml

namespace Document

variable {p : Path} {kind : DocumentKind} {d : Document}

theorem ofBytes_unreadable {root : Element} (h : root.PlainWith anyChar) (hplain : ¬ root.Plain) :
    ofBytes p root.print.toUTF8 kind = .error (.malformed p) := by
  rw [ofBytes, parse_print_eq_none rfl h hplain]

/-- What a document is to which records are added whose values are of any kind. -/
theorem edited {rs : List Element} (hplain : d.root.PlainWith anyChar) (hfits : d.Fits kind)
    (hrs : ∀ r ∈ rs, r.PlainWith anyChar) :
    (rs.foldl append d).Fits kind ∧ (rs.foldl append d).root.PlainWith anyChar ∧
      ((rs.foldl append d).root.Plain ↔ (∀ r ∈ rs, r.Plain) ∧ d.root.HasTexts) := by
  refine ⟨hfits.foldl_append rs, (plain_foldl_append_iff hfits).2 ⟨hplain, hrs⟩, ?_⟩
  rw [Element.Plain, plain_foldl_append_iff hfits, and_comm]
  exact and_congr_right fun _ => hplain.plain_iff

end Document

/-! ## Records -/

theorem Model.hasTexts_of_path {model : Model} (h : ∃ path, ofPath path = .ok model)
    (htext : IsText model.path.toText) : model.HasTexts := by
  obtain ⟨path, hpath⟩ := h
  obtain rfl := (mem_segments_of_ofPath hpath).1
  exact hasTexts_of_ofPath htext hpath

section Records

variable {models : List Model} {rs : List ReferenceRecord}

theorem modelRecords_plain_iff (hpaths : ∀ model ∈ models, ∃ path, Model.ofPath path = .ok model) :
    (∀ e ∈ models.map fun model => (ModelRecord.ofModel model).toElement, e.Plain) ↔
      ∀ model ∈ models, IsText model.path.toText := by
  constructor
  · intro h model hmodel
    have hplain := h _ (List.mem_map_of_mem hmodel)
    have hpath : ("path", model.path.toText) ∈
        (ModelRecord.ofModel model).toElement.tag.attributes := by
      simp [ModelRecord.toElement, ModelRecord.ofModel, recordElement]
    exact (hplain.1.attributes _ hpath).2.2
  · intro h e he
    have htexts := fun model hmodel => Model.hasTexts_of_path (hpaths model hmodel) (h model hmodel)
    exact (plain_modelRecords htexts e he).1

theorem referenceRecords_plain_iff
    (hpaths : ∀ model ∈ models, ∃ path, Model.ofPath path = .ok model)
    (hsubjects : rs.map ReferenceRecord.subject = models.flatMap Model.subjects) :
    (∀ e ∈ rs.map ReferenceRecord.toElement, e.Plain) ↔
      ∀ model ∈ models, IsText model.path.toText := by
  constructor
  · intro h model hmodel
    have hsubject : (model.path.toText, model.precision, .createNetwork, referenceDevice) ∈
        rs.map ReferenceRecord.subject := by
      rw [hsubjects, List.mem_flatMap]
      exact ⟨model, hmodel, List.mem_cons_self⟩
    obtain ⟨r, hr, hsubject⟩ := List.mem_map.1 hsubject
    have hplain := h _ (List.mem_map_of_mem hr)
    have hpath : ("path", r.path) ∈ r.toElement.tag.attributes := by
      simp [ReferenceRecord.toElement, recordElement]
    rw [← (Prod.mk.inj hsubject).1]
    exact (hplain.1.attributes _ hpath).2.2
  · intro h e he
    have htexts := fun model hmodel => Model.hasTexts_of_path (hpaths model hmodel) (h model hmodel)
    exact (plain_referenceRecords htexts hsubjects e he).1

end Records

/-! ## Documents -/

namespace FileTree

variable {t : FileTree} {p : Path} {kind : DocumentKind} {d : Document} {condition : Prop}

/-- A document loads under a condition, and else it cannot be read. -/
structure LoadsIf (t : FileTree) (p : Path) (kind : DocumentKind) (condition : Prop) : Prop where
  loads : condition → ∃ d, t.document p kind = .ok d
  unreadable : ¬ condition → t.document p kind = .error (.malformed p)

/-- What is loaded of a document that is plain but for its characters. -/
theorem loadsIf_of_opened (hopened : t.opened p = .ok (.file d.bytes))
    (hany : d.root.PlainWith anyChar) (hfits : d.Fits kind) (h : d.root.Plain ↔ condition) :
    t.LoadsIf p kind condition := by
  refine ⟨fun hcondition => ?_, fun hcondition => ?_⟩
  · rw [document, hopened]
    exact ⟨_, Document.ofBytes_print (p := p) (h.2 hcondition) hfits⟩
  · rw [document, hopened]
    exact Document.ofBytes_unreadable hany (h.not.2 hcondition)

end FileTree

/-! ## Generations -/

namespace Job

variable {job : Job} {t t' : FileTree} {w : WordSource} {report : GenerationReport} {scan : Scan}
  {tests references : Document} {rs : List ReferenceRecord}

/-- Both documents of a job load. -/
def Loads (job : Job) (t : FileTree) : Prop :=
  (∃ d, t.document job.testConf .tests = .ok d) ∧ ∃ d, t.document job.refsConf .references = .ok d

/-- Neither document of a job can be read. -/
def Unreadable (job : Job) (t : FileTree) : Prop :=
  t.document job.testConf .tests = .error (.malformed job.testConf) ∧
    t.document job.refsConf .references = .error (.malformed job.refsConf)

section Stored

variable (h : job.Stored t t' scan tests references rs) (hdocuments : job.Unprefixed t)

include h hdocuments

/-- The document of references that a generation leaves. -/
theorem Stored.edited_references :
    (references.withReferences rs).Fits .references ∧
      (references.withReferences rs).root.PlainWith anyChar ∧
        ((references.withReferences rs).root.Plain ↔
          (∀ model ∈ scan.models, IsText model.path.toText) ∧ references.root.HasTexts) := by
  obtain ⟨hplain, hfits⟩ := Document.plain_of_document h.loads_references hdocuments.references
  rw [← referenceRecords_plain_iff (FileTree.exists_ofPath_of_scan h.finds) h.subjects]
  exact Document.edited hplain hfits
    (List.forall_mem_map.2 fun (r : ReferenceRecord) (_ : r ∈ rs) =>
      ReferenceRecord.plainWith fun _ _ => List.all_eq_true.2 fun _ _ => rfl)

theorem Stored.loadsIf_references : t'.LoadsIf job.refsConf .references
    ((∀ model ∈ scan.models, IsText model.path.toText) ∧ references.root.HasTexts) := by
  obtain ⟨hfits, hany, hplain⟩ := h.edited_references hdocuments
  exact FileTree.loadsIf_of_opened h.opened_references hany hfits hplain

theorem Stored.loadsIf_tests (hne : ¬ t.SameFile job.testConf job.refsConf) :
    t'.LoadsIf job.testConf .tests
      ((∀ model ∈ scan.models, IsText model.path.toText) ∧ tests.root.HasTexts) := by
  obtain ⟨hplain, hfits⟩ := Document.plain_of_document h.loads_tests hdocuments.tests
  rw [← modelRecords_plain_iff (FileTree.exists_ofPath_of_scan h.finds)]
  obtain ⟨hfits', hany, hplain'⟩ := Document.edited hplain hfits
    (List.forall_mem_map.2 fun (model : Model) (_ : model ∈ scan.models) =>
      ModelRecord.plainWith fun _ _ => List.all_eq_true.2 fun _ _ => rfl)
  exact FileTree.loadsIf_of_opened (h.opened_tests hne) hany hfits' hplain'

/-- One file to which both paths lead holds the references. -/
theorem Stored.loadsIf_shared (hsame : t.SameFile job.testConf job.refsConf) :
    t'.LoadsIf job.testConf .tests
      ((∀ model ∈ scan.models, IsText model.path.toText) ∧ references.root.HasTexts) := by
  obtain ⟨hfits, hany, hplain⟩ := h.edited_references hdocuments
  exact FileTree.loadsIf_of_opened (h.opened_shared hsame) hany hfits.of_references hplain

end Stored

/-- What a generation stores may stand in a document of any version: the paths of the models that it
finds, and the texts of its documents, but for those of tests if the references are stored in their
place. -/
structure HasTexts (job : Job) (t : FileTree) (scan : Scan) (tests references : Document) :
    Prop where
  paths : ∀ model ∈ scan.models, IsText model.path.toText
  references : references.root.HasTexts
  tests : t.SameFile job.testConf job.refsConf ∨ tests.root.HasTexts

/-- Both documents of a job that a generation leaves load if what it stores may stand in a document;
else one of them cannot be read, and neither can if a path may not. -/
theorem Stored.reread (h : job.Stored t t' scan tests references rs)
    (hdocuments : job.Unprefixed t) :
    (job.HasTexts t scan tests references → job.Loads t') ∧
      (¬ job.HasTexts t scan tests references →
        t'.document job.testConf .tests = .error (.malformed job.testConf) ∨
          (∃ d, t'.document job.testConf .tests = .ok d) ∧
            t'.document job.refsConf .references = .error (.malformed job.refsConf)) ∧
      ((∃ model ∈ scan.models, ¬ IsText model.path.toText) → job.Unreadable t') := by
  have hreferences := h.loadsIf_references hdocuments
  obtain ⟨condition, htests, himp, hof⟩ : ∃ condition, t'.LoadsIf job.testConf .tests
      ((∀ model ∈ scan.models, IsText model.path.toText) ∧ condition) ∧
      (job.HasTexts t scan tests references → condition) ∧
      (condition → t.SameFile job.testConf job.refsConf ∨ tests.root.HasTexts) := by
    by_cases hsame : t.SameFile job.testConf job.refsConf
    · exact ⟨_, h.loadsIf_shared hdocuments hsame, HasTexts.references, fun _ => .inl hsame⟩
    · exact ⟨_, h.loadsIf_tests hdocuments hsame,
        fun htexts => htexts.tests.resolve_left hsame, .inr⟩
  refine ⟨fun htexts => ?_, fun hnot => ?_, fun ⟨model, hmodel, hpath⟩ => ?_⟩
  · exact ⟨htests.loads ⟨htexts.paths, himp htexts⟩,
      hreferences.loads ⟨htexts.paths, htexts.references⟩⟩
  · by_cases hcondition : (∀ model ∈ scan.models, IsText model.path.toText) ∧ condition
    · refine .inr ⟨htests.loads hcondition, hreferences.unreadable fun ⟨hpaths, htexts⟩ => ?_⟩
      exact hnot ⟨hpaths, htexts, hof hcondition.2⟩
    · exact .inl (htests.unreadable hcondition)
  · exact ⟨htests.unreadable fun hall => hpath (hall.1 model hmodel),
      hreferences.unreadable fun hall => hpath (hall.1 model hmodel)⟩

theorem Loads.runOn_ne (h : job.Loads t) (w : WordSource) (p : Path) :
    (job.runOn w t).1 ≠ .error (.malformed p) ∧
      (job.runOn w t).1 ≠ .error (.missingContainer p) := by
  obtain ⟨⟨tests, htests⟩, references, hreferences⟩ := h
  have hsaved : ∀ (t : FileTree) (d : Document) {e : ManifestError} {t' : FileTree},
      t.saveDocument d = (.error e, t') → e ≠ .malformed p ∧ e ≠ .missingContainer p := by
    intro t d e t' hsave
    have hresult := (Prod.mk.inj hsave).1
    rcases hfault : (t.save d.path d.bytes).1 with fault | u <;> rw [hfault] at hresult
    · obtain rfl := Except.error.inj hresult
      cases fault <;> exact ⟨nofun, nofun⟩
    · exact absurd hresult nofun
  rw [runOn_eq]
  simp only [htests, hreferences]
  rcases t.scan job.filter job.irCacheDir with e | scan
  · simp
  simp only
  rcases hsave : t.saveDocument _ with ⟨e | u, t₁⟩
  · simpa using hsaved _ _ hsave
  simp only
  rcases hsave' : t₁.saveDocument _ with ⟨e | u, t₂⟩
  · simpa using hsaved _ _ hsave'
  · simp

theorem runOn_of_unreadable
    (h : t.document job.testConf .tests = .error (.malformed job.testConf)) (w : WordSource) :
    job.runOn w t = (.error (.malformed job.testConf), t) := by
  rw [runOn_eq, h]

theorem runOn_of_unreadable_references (htests : t.document job.testConf .tests = .ok tests)
    (h : t.document job.refsConf .references = .error (.malformed job.refsConf))
    (w : WordSource) : job.runOn w t = (.error (.malformed job.refsConf), t) := by
  rw [runOn_eq, htests, h]

theorem Stored.exists_fails (h : job.Stored t t' scan tests references rs)
    (hdocuments : job.Unprefixed t) (hnot : ¬ job.HasTexts t scan tests references) :
    ∃ p ∈ [job.testConf, job.refsConf], ∀ w, job.runOn w t' = (.error (.malformed p), t') := by
  obtain htests | ⟨⟨d, htests⟩, hreferences⟩ := (h.reread hdocuments).2.1 hnot
  · exact ⟨_, List.mem_cons_self, runOn_of_unreadable htests⟩
  · exact ⟨_, List.mem_cons_of_mem _ List.mem_cons_self,
      runOn_of_unreadable_references htests hreferences⟩

/-- What a generation that succeeds leaves to the next. Its documents declare no namespace and use
no prefixed names. If the paths of all models found and the texts of the documents may stand in a
document of any version, both load again; if not, the next generation fails at a document that
cannot be read, and if it is a path that may not, neither of the documents can. -/
theorem runOn_reread (hdocuments : job.Unprefixed t) (h : job.runOn w t = (.ok report, t')) :
    ∃ scan tests references,
      t.scan job.filter job.irCacheDir = .ok scan ∧ job.Loaded t tests references ∧
      (job.HasTexts t scan tests references → job.Loads t' ∧
        ∀ w' p, (job.runOn w' t').1 ≠ .error (.malformed p) ∧
          (job.runOn w' t').1 ≠ .error (.missingContainer p)) ∧
      (¬ job.HasTexts t scan tests references → ∃ p ∈ [job.testConf, job.refsConf],
        ∀ w', job.runOn w' t' = (.error (.malformed p), t')) ∧
      ((∃ model ∈ scan.models, ¬ IsText model.path.toText) → job.Unreadable t' ∧
        ∀ w', job.runOn w' t' = (.error (.malformed job.testConf), t')) := by
  obtain ⟨scan, tests, references, rs, -, hstored⟩ := exists_stored h
  obtain ⟨hloads, -, hunreadable⟩ := hstored.reread hdocuments
  refine ⟨scan, tests, references, hstored.finds, hstored.loaded hdocuments,
    fun htexts => ⟨hloads htexts, (hloads htexts).runOn_ne⟩, hstored.exists_fails hdocuments,
    fun hnot => ⟨hunreadable hnot, runOn_of_unreadable (hunreadable hnot).1⟩⟩

section Control

theorem isFirst_of_smallFile {p : Path} {location : Location}
    (h : t.HasFile p location smallFile) : t.IsFirst p := by
  intro bytes hbytes
  rw [h.opened] at hbytes
  obtain rfl := Opened.file.inj (Except.ok.inj hbytes)
  exact versionOf?_print smallRoot

/-- The name of a model that begins with a control character. -/
def controlName : Name :=
  [0x01, 0x2E, 0x78, 0x6D, 0x6C]

/-- A cache of a model of this name, under five directories. -/
def controlCache : Entry :=
  .dir [([0x61], .dir [([0x61], .dir [([0x61], .dir [([0x61], .dir [([0x61],
    .dir [(controlName, .file {})])])])])])]

/-- A tree of this cache and two documents. -/
def controlTree : FileTree where
  root := .dir [([0x63], controlCache), ([0x72], .file smallFile), ([0x74], .file smallFile)]

/-- The path of the model. -/
def controlPath : Path :=
  ⟨[0x2F, 0x63, 0x2F, 0x61, 0x2F, 0x61, 0x2F, 0x61, 0x2F, 0x61, 0x2F, 0x61, 0x2F] ++ controlName⟩

/-- What is found in the cache. -/
def controlScan : Scan where
  models := [⟨"\x01.xml", controlPath, .plain, "a", "a"⟩]
  filesVisited := 1

theorem visits_controlTree :
    controlTree.visits smallJob.irCacheDir = [.file controlPath controlName] := by
  have hresolve : controlTree.resolve smallJob.irCacheDir = .ok (.found [[0x63]] controlCache) :=
    rfl
  rw [FileTree.visits, hresolve]
  decide +kernel

theorem scan_controlTree : controlTree.scan {} smallJob.irCacheDir = .ok controlScan := by
  have hpresent : controlTree.present smallJob.irCacheDir = true := rfl
  rw [FileTree.scan, hpresent, visits_controlTree]
  decide +kernel

theorem not_isText_controlPath : ¬ IsText controlPath.toText := by
  have hcontrol : controlPath.toText.toList.all isChar = false := by decide +kernel
  rw [IsText, hcontrol]
  exact Bool.false_ne_true

/-- A generation with this tree leaves documents that cannot be read, and the next fails. -/
theorem controlTree_reread : ∃ report t', smallJob.Unprefixed controlTree ∧
    smallJob.runOn (.ofSeed 0) controlTree = (.ok report, t') ∧ smallJob.Unreadable t' ∧
    ∀ w', smallJob.runOn w' t' = (.error (.malformed smallJob.testConf), t') := by
  have htests : controlTree.HasFile smallJob.testConf [[0x74]] smallFile := rfl
  have hreferences : controlTree.HasFile smallJob.refsConf [[0x72]] smallFile := rfl
  have haccepts : controlTree.Accepts smallJob.testConf := htests.accepts_iff.2 ⟨rfl, rfl⟩
  have haccepts' : controlTree.Accepts smallJob.refsConf := hreferences.accepts_iff.2 ⟨rfl, rfl⟩
  have hunprefixed : smallJob.Unprefixed controlTree :=
    unprefixed_of_files htests hreferences hasNoPrefixes_smallFile hasNoPrefixes_smallFile
  obtain ⟨report, t', hrun⟩ := exists_runOn (keeps_smallFile htests haccepts).document
    (keeps_smallFile hreferences haccepts').document scan_controlTree haccepts haccepts' (.ofSeed 0)
  obtain ⟨scan, -, -, hscan, -, -, -, hunreadable⟩ := runOn_reread hunprefixed hrun
  obtain rfl := Except.ok.inj (scan_controlTree.symm.trans hscan)
  obtain ⟨hunreadable, hnext⟩ := hunreadable ⟨_, List.mem_cons_self, not_isText_controlPath⟩
  exact ⟨report, t', hunprefixed, hrun, hunreadable, hnext⟩

end Control

end Job

end ModelIR
