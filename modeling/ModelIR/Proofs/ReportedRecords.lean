import ModelIR.Proofs.GenerationRun

/-!
# What a report counts

A report counts a record once for each time that it is added to a document, while the document
counts it once for each element that holds records. Documents of references have one such element,
so the two agree. A document of tests has one for every device if it has no container, and then it
grows by so many records for each one that is reported (`addModels_counted`).
-/

namespace ModelIR

namespace Manifests

variable {d d' : Manifests} {models : List Model}

theorem Adds.modelCount_tests (h : d.Adds d' models) (fits : d.tests.Fits .tests) :
    d'.tests.modelCount = d.tests.modelCount + d.tests.sections * models.length := by
  have hnames : ∀ r ∈ models.map fun model => (ModelRecord.ofModel model).toElement,
      r.tag.name = recordName := List.forall_mem_map.2 fun _ _ => rfl
  rw [h.tests, fits.modelCount_foldl_append hnames, List.length_map]

theorem Adds.modelCount_references (h : d.Adds d' models) (fits : d.references.Fits .references) :
    d'.references.modelCount = d.references.modelCount + 3 * models.length := by
  obtain ⟨rs, hsubjects, hreferences⟩ := h.references
  have hnames : ∀ r ∈ rs.map ReferenceRecord.toElement, r.tag.name = recordName :=
    List.forall_mem_map.2 fun _ _ => rfl
  rw [hreferences, fits.modelCount_foldl_append hnames, fits.sections_references, List.length_map,
    length_of_subjects hsubjects, Nat.one_mul]

/-- What is added for models, and what is reported of it. The references grow by as many records as
are reported. The tests grow by as many times that as elements hold records in them; this is what is
reported exactly if there is one such element, or no model. -/
theorem addModels_counted {tests references : Document} (htests : tests.Fits .tests)
    (hreferences : references.Fits .references) (models : List Model) (w : WordSource) :
    ∃ d w', (Manifests.addModels { tests, references } models).run w = (d, w') ∧
      d.report.models = models.length ∧ d.report.modelRecords = models.length ∧
      d.report.referenceRecords = 3 * models.length ∧
      d.references.modelCount = references.modelCount + d.report.referenceRecords ∧
      d.tests.modelCount = tests.modelCount + tests.sections * d.report.modelRecords ∧
      (d.tests.modelCount = tests.modelCount + d.report.modelRecords ↔
        models = [] ∨ tests.sections = 1) := by
  obtain ⟨d, w', hrun, hadds⟩ := exists_addModels { tests, references } models w
  have hreport : d.report.modelRecords = models.length := by simp [hadds.report]
  have hreported : d.report.referenceRecords = 3 * models.length := by simp [hadds.report]
  have hcount := hadds.modelCount_tests htests
  refine ⟨d, w', hrun, by simp [hadds.report], hreport, hreported, ?_, ?_, ?_⟩
  · rw [hreported]
    exact hadds.modelCount_references hreferences
  · rw [hreport]
    exact hcount
  · rw [hcount, hreport, Nat.add_left_cancel_iff, ← List.length_eq_zero_iff]
    rcases Nat.eq_zero_or_pos models.length with hnone | hsome
    · simp [hnone]
    · rw [Nat.mul_eq_right (Nat.ne_of_gt hsome), or_iff_right (Nat.ne_of_gt hsome)]

/-- Two devices. -/
def twoDevices : Document where
  path := ⟨[0x74]⟩
  root := { tag := { name := "conf" }, children :=
    [.element { name := deviceName } [], .element { name := deviceName } []] }
  container := .devices

/-- No references. -/
def noReferences : Document where
  path := ⟨[0x72]⟩
  root := { tag := { name := "conf" }, children := [.element { name := containerName } []] }
  container := .models

/-- A model in a cache. -/
def cachedModel : Model where
  fileName := "m.xml"
  path := ⟨[0x6D, 0x2E, 0x78, 0x6D, 0x6C]⟩
  layout := .plain
  framework := "a"
  precision := "b"

/-- One record of a model is reported where the document of two devices counts two. -/
theorem twoDevices_counted : twoDevices.Fits .tests ∧ noReferences.Fits .references ∧
    ∃ d w', (addModels { tests := twoDevices, references := noReferences } [cachedModel]).run
        (.ofSeed 0) = (d, w') ∧
      d.report.modelRecords = 1 ∧ twoDevices.modelCount = 0 ∧ d.tests.modelCount = 2 ∧
      d.report.referenceRecords = 3 ∧ noReferences.modelCount = 0 ∧
      d.references.modelCount = 3 := by
  have htests : twoDevices.Fits .tests := by unfold Document.Fits; decide
  have hreferences : noReferences.Fits .references := by unfold Document.Fits; decide
  have hnone : twoDevices.modelCount = 0 := by decide
  have hnone' : noReferences.modelCount = 0 := by decide
  have hsections : twoDevices.sections = 2 := by decide
  obtain ⟨d, w', hrun, -, hmodels, hreported, hrefs, hcount, -⟩ :=
    addModels_counted htests hreferences [cachedModel] (.ofSeed 0)
  refine ⟨htests, hreferences, d, w', hrun, hmodels, hnone, ?_, hreported, hnone', ?_⟩
  · rw [hcount, hnone, hsections, hmodels]
    rfl
  · rw [hrefs, hnone', hreported]
    rfl

end Manifests

end ModelIR
