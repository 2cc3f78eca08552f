import ModelIR.Cache.Scan
import ModelIR.Proofs.DocumentRecords
import ModelIR.Proofs.PathCharacters

/-!
# Records are plain

What a model has from a path of characters that a document may hold, is made of such characters
(`Scan.hasTexts_of_ofVisits`). So its records are plain elements, and a document to which they are
added is plain if and only if it was (`Document.plain_foldl_append_iff`).
-/

namespace ModelIR

open Xml

/-! ## Models -/

namespace Model

/-- The texts of a model may stand in a document. -/
structure HasTexts (model : Model) : Prop where
  fileName : IsText model.fileName
  path : IsText model.path.toText
  precision : IsText model.precision
  framework : IsText model.framework

theorem hasTexts_of_ofPath {path : Path} {model : Model} (h : IsText path.toText)
    (hmodel : ofPath path = .ok model) : model.HasTexts := by
  obtain ⟨rfl, hfile, hprecision, hframework⟩ := mem_segments_of_ofPath hmodel
  have hsegment : ∀ segment ∈ model.path.segments, IsText segment := by
    intro segment hmem
    refine List.all_eq_true.2 fun c hc => ?_
    exact List.all_eq_true.1 h c (Path.mem_toText_of_mem_segments hmem hc)
  exact ⟨hsegment _ hfile, h, hsegment _ hprecision, hsegment _ hframework⟩

end Model

namespace Scan

variable {f : Filter} {visits : List Visit} {scan : Scan}

/-- The paths of all files that are visited may stand in a document. -/
def HasTexts (visits : List Visit) : Prop :=
  ∀ path name, .file path name ∈ visits → IsText path.toText

theorem exists_of_modelOf {visit : Visit} {model : Model} (h : modelOf f visit = .ok (some model)) :
    ∃ path name, visit = .file path name ∧ Model.ofPath path = .ok model := by
  cases visit with
  | unlistable dir => simp [modelOf] at h
  | file path name =>
    rw [modelOf] at h
    split_ifs at h
    · split at h
      · next found hfound =>
        split_ifs at h
        · obtain rfl := Option.some.inj (Except.ok.inj h)
          exact ⟨path, name, rfl, hfound⟩
        · simp at h
      · simp at h
    · simp at h

theorem exists_of_mapM {ε α β : Type} {g : α → Except ε β} : ∀ {l : List α} {l' : List β},
    l.mapM g = .ok l' → ∀ b ∈ l', ∃ a ∈ l, g a = .ok b
  | [], l', h => by
    obtain rfl := Except.ok.inj h
    nofun
  | a :: l, l', h => by
    rw [List.mapM_cons] at h
    rcases ha : g a with e | b <;> rw [ha] at h
    · exact absurd h nofun
    · rcases hl : l.mapM g with e | bs <;> rw [hl] at h
      · exact absurd h nofun
      · obtain rfl := Except.ok.inj h
        refine List.forall_mem_cons.2 ⟨⟨a, List.mem_cons_self, ha⟩, fun b' hb' => ?_⟩
        obtain ⟨a', ha', hg⟩ := exists_of_mapM hl b' hb'
        exact ⟨a', List.mem_cons_of_mem _ ha', hg⟩

/-- Every model that is found is the model of a file that is visited. -/
theorem exists_of_ofVisits (hscan : ofVisits f visits = .ok scan) : ∀ model ∈ scan.models,
    ∃ path name, .file path name ∈ visits ∧ Model.ofPath path = .ok model := by
  rw [ofVisits] at hscan
  rcases hfound : visits.mapM (modelOf f) with e | found <;> rw [hfound] at hscan
  · exact absurd hscan nofun
  · obtain rfl := Except.ok.inj hscan
    intro model hmodel
    obtain ⟨m, hm, rfl⟩ := List.mem_filterMap.1 hmodel
    obtain ⟨visit, hvisit, hvisited⟩ := exists_of_mapM hfound (some model) hm
    obtain ⟨path, name, rfl, hpath⟩ := exists_of_modelOf hvisited
    exact ⟨path, name, hvisit, hpath⟩

theorem hasTexts_of_ofVisits (h : HasTexts visits) (hscan : ofVisits f visits = .ok scan) :
    ∀ model ∈ scan.models, model.HasTexts := by
  intro model hmodel
  obtain ⟨path, name, hvisit, hpath⟩ := exists_of_ofVisits hscan model hmodel
  exact Model.hasTexts_of_ofPath (h path name hvisit) hpath

end Scan

/-! ## Records -/

theorem recordElement_plain {C : Char → Bool} {attributes : List (String × String)}
    (names : List String) (hnames : attributes.map Prod.fst = names)
    (hlocal : names.Nodup ∧ ∀ name ∈ names, isName name.toList = true ∧ ':' ∉ name.toList ∧
      name ≠ Scope.xmlnsPrefix)
    (hvalues : ∀ a ∈ attributes, a.2.toList.all C = true) :
      (recordElement attributes).PlainWith C := by
  have hrecord : ({ name := recordName } : QName).IsLocal := ⟨rfl, by decide, by decide⟩
  refine ⟨⟨hrecord, rfl, rfl, hnames ▸ hlocal.1, fun a ha => ?_⟩, trivial⟩
  obtain ⟨hname, hcolon, hne⟩ := hlocal.2 a.1 (hnames ▸ List.mem_map_of_mem ha)
  exact ⟨⟨rfl, hname, hcolon⟩, hne, hvalues a ha⟩

theorem isText_repr (n : Nat) : IsText n.repr := by
  refine List.all_eq_true.2 fun c hc => ?_
  rw [Nat.toList_repr] at hc
  have hdigit := Nat.isDigit_of_mem_toDigits (by decide) (by decide) hc
  simp only [Char.isDigit, Bool.and_eq_true, decide_eq_true_eq, ge_iff_le,
    UInt32.le_iff_toNat_le] at hdigit
  obtain ⟨hlow, hhigh⟩ := hdigit
  have hlow : 48 ≤ c.toNat := hlow
  have hhigh : c.toNat ≤ 57 := hhigh
  have hchar : (0x20 ≤ c.toNat && c.toNat ≠ 0xFFFE && c.toNat ≠ 0xFFFF) = true := by
    simp only [Bool.and_eq_true, decide_eq_true_eq]
    omega
  rw [isChar, hchar, Bool.or_true]

theorem ModelRecord.plainWith {C : Char → Bool} {r : ModelRecord}
    (h : ∀ a ∈ r.toElement.tag.attributes, a.2.toList.all C = true) : r.toElement.PlainWith C :=
  recordElement_plain ["name", "precision", "framework", "path", "full_path"] rfl (by decide) h

theorem ReferenceRecord.plainWith {C : Char → Bool} {r : ReferenceRecord}
    (h : ∀ a ∈ r.toElement.tag.attributes, a.2.toList.all C = true) : r.toElement.PlainWith C :=
  recordElement_plain
    ["path", "precision", "test", "device", "vmsize", "vmpeak", "vmrss", "vmhwm"] rfl (by decide) h

theorem ModelRecord.plain_toElement {model : Model} (h : model.HasTexts) :
    (ofModel model).toElement.Plain := by
  refine plainWith ?_
  simp only [toElement, recordElement, ofModel, List.forall_mem_cons]
  exact ⟨h.fileName, h.precision, h.framework, h.path, h.path, nofun⟩

/-- What a record is about, without its figures. -/
def ReferenceRecord.subject (r : ReferenceRecord) : String × String × TestKind × String :=
  (r.path, r.precision, r.test, r.device)

/-- What the records of a model are about. -/
def Model.subjects (model : Model) : List (String × String × TestKind × String) :=
  TestKind.all.map fun test => (model.path.toText, model.precision, test, referenceDevice)

theorem length_flatMap_subjects : ∀ models : List Model,
    (models.flatMap Model.subjects).length = 3 * models.length
  | [] => rfl
  | model :: models => by
    have hsubjects : model.subjects.length = 3 := rfl
    rw [List.flatMap_cons, List.length_append, length_flatMap_subjects models, hsubjects,
      List.length_cons]
    omega

theorem length_of_subjects {models : List Model} {rs : List ReferenceRecord}
    (h : rs.map ReferenceRecord.subject = models.flatMap Model.subjects) :
    rs.length = 3 * models.length := by
  rw [← List.length_map, h, length_flatMap_subjects]

theorem ReferenceRecord.plain_toElement {r : ReferenceRecord} {model : Model}
    (hr : r.subject ∈ model.subjects) (h : model.HasTexts) : r.toElement.Plain := by
  obtain ⟨test, -, htest⟩ := List.mem_map.1 hr
  simp only [subject, Prod.mk.injEq] at htest
  obtain ⟨hpath, hprecision, rfl, hdevice⟩ := htest
  have hlabel : IsText r.test.label := by cases r.test <;> decide
  have hcpu : IsText referenceDevice := by decide
  refine plainWith ?_
  simp only [toElement, recordElement, List.forall_mem_cons, ← hpath, ← hprecision, ← hdevice]
  exact ⟨h.path, h.precision, hlabel, hcpu, isText_repr _, isText_repr _, isText_repr _,
    isText_repr _, nofun⟩

theorem plain_modelRecords {models : List Model} (h : ∀ model ∈ models, model.HasTexts) :
    ∀ e ∈ models.map fun model => (ModelRecord.ofModel model).toElement,
      e.Plain ∧ e.tag.name = recordName := by
  intro e he
  obtain ⟨model, hmodel, rfl⟩ := List.mem_map.1 he
  exact ⟨ModelRecord.plain_toElement (h model hmodel), rfl⟩

theorem plain_referenceRecords {models : List Model} {rs : List ReferenceRecord}
    (h : ∀ model ∈ models, model.HasTexts)
    (hsubjects : rs.map ReferenceRecord.subject = models.flatMap Model.subjects) :
    ∀ e ∈ rs.map ReferenceRecord.toElement, e.Plain ∧ e.tag.name = recordName := by
  intro e he
  obtain ⟨r, hr, rfl⟩ := List.mem_map.1 he
  have hsubject : r.subject ∈ models.flatMap Model.subjects := hsubjects ▸ List.mem_map_of_mem hr
  obtain ⟨model, hmodel, hmem⟩ := List.mem_flatMap.1 hsubject
  exact ⟨ReferenceRecord.plain_toElement hmem (h model hmodel), rfl⟩

/-! ## Documents -/

namespace Document

variable {d : Document} {record : Element} {C : Char → Bool}

theorem plain_pushInto {child node : Xml.Node} (hchild : child.PlainWith C) (h : node.PlainWith C) :
    (pushInto child node).PlainWith C := by
  cases node with
  | element tag children => exact ⟨h.1, plainAll_append h.2 ⟨hchild, trivial⟩⟩
  | _ => exact h

theorem plainAll_pushIntoFirst {name : String} {child : Xml.Node} (hchild : child.PlainWith C)
    {nodes : List Xml.Node} (h : Node.PlainAllWith C nodes) :
    Node.PlainAllWith C (pushIntoFirst name child nodes) := by
  induction nodes with
  | nil => trivial
  | cons node nodes ih =>
    rw [pushIntoFirst]
    split_ifs
    · exact ⟨plain_pushInto hchild h.1, h.2⟩
    · exact ⟨h.1, ih h.2⟩

theorem plainAll_pushIntoAll {name : String} {child : Xml.Node} (hchild : child.PlainWith C)
    {nodes : List Xml.Node} (h : Node.PlainAllWith C nodes) :
    Node.PlainAllWith C (pushIntoAll name child nodes) := by
  rw [Node.plainAll_iff] at h ⊢
  intro node hnode
  obtain ⟨old, hold, rfl⟩ := List.mem_map.1 hnode
  split_ifs
  · exact plain_pushInto hchild (h old hold)
  · exact h old hold

/-- A plain document stays plain when a plain record is added. -/
theorem plain_append (h : d.root.PlainWith C) (hrecord : record.PlainWith C) :
    (d.append record).root.PlainWith C := by
  obtain ⟨path, root, container⟩ := d
  cases container with
  | models => exact ⟨h.1, plainAll_pushIntoFirst hrecord h.2⟩
  | devices => exact ⟨h.1, plainAll_pushIntoAll hrecord h.2⟩

/-! ## Plain documents with records -/

theorem of_pushInto {name : String} {child node : Xml.Node} (hname : node.isElement name = true)
    (h : (pushInto child node).PlainWith C) : node.PlainWith C ∧ child.PlainWith C := by
  obtain ⟨tag, children, rfl⟩ := exists_element_of_isElement hname
  have hall := Node.plainAll_iff.1 h.2
  have hchildren : Node.PlainAllWith C children :=
    Node.plainAll_iff.2 fun node hnode => hall node (List.mem_append_left _ hnode)
  exact ⟨⟨h.1, hchildren⟩, hall child (List.mem_append_right _ List.mem_cons_self)⟩

theorem of_pushIntoFirst {name : String} {child : Xml.Node} {nodes : List Xml.Node}
    (hname : nodes.any (·.isElement name) = true)
    (h : Node.PlainAllWith C (pushIntoFirst name child nodes)) :
    Node.PlainAllWith C nodes ∧ child.PlainWith C := by
  induction nodes with
  | nil => simp at hname
  | cons node nodes ih =>
    rw [pushIntoFirst] at h
    split_ifs at h with hnode
    · obtain ⟨hnode, hchild⟩ := of_pushInto hnode h.1
      exact ⟨⟨hnode, h.2⟩, hchild⟩
    · rw [List.any_cons, Bool.or_eq_true, or_iff_right hnode] at hname
      obtain ⟨hnodes, hchild⟩ := ih hname h.2
      exact ⟨⟨h.1, hnodes⟩, hchild⟩

theorem of_pushIntoAll {name : String} {child : Xml.Node} {nodes : List Xml.Node}
    (hname : nodes.any (·.isElement name) = true)
    (h : Node.PlainAllWith C (pushIntoAll name child nodes)) :
    Node.PlainAllWith C nodes ∧ child.PlainWith C := by
  have hall : ∀ node ∈ nodes,
      (if node.isElement name then pushInto child node else node).PlainWith C :=
    fun node hnode => Node.plainAll_iff.1 h _ (List.mem_map_of_mem hnode)
  constructor
  · refine Node.plainAll_iff.2 fun node hnode => ?_
    have hpushed := hall node hnode
    split_ifs at hpushed with hname
    · exact (of_pushInto hname hpushed).1
    · exact hpushed
  · obtain ⟨node, hnode, hname⟩ := List.any_eq_true.1 hname
    have hpushed := hall node hnode
    rw [if_pos hname] at hpushed
    exact (of_pushInto hname hpushed).2

/-- A document to which a record is added is as plain as the document and the record. -/
theorem plain_append_iff {kind : DocumentKind} (hfits : d.Fits kind) :
    (d.append record).root.PlainWith C ↔ d.root.PlainWith C ∧ record.PlainWith C := by
  refine ⟨fun h => ?_, fun h => plain_append h.1 h.2⟩
  obtain ⟨path, root, container⟩ := d
  cases container with
  | models =>
    have hmodels := List.any_eq_true.2 (hfits.models_iff.1 rfl)
    obtain ⟨hchildren, hrecord⟩ := of_pushIntoFirst hmodels h.2
    exact ⟨⟨h.1, hchildren⟩, hrecord⟩
  | devices =>
    have hdevices := List.any_eq_true.2 (hfits.of_devices rfl).2
    obtain ⟨hchildren, hrecord⟩ := of_pushIntoAll hdevices h.2
    exact ⟨⟨h.1, hchildren⟩, hrecord⟩

/-- A document to which records are added is as plain as the document and the records. -/
theorem plain_foldl_append_iff {kind : DocumentKind} : ∀ {rs : List Element} {d : Document},
    d.Fits kind → ((rs.foldl append d).root.PlainWith C ↔
      d.root.PlainWith C ∧ ∀ r ∈ rs, r.PlainWith C)
  | [], _, _ => by simp
  | r :: rs, d, hfits => by
    rw [List.foldl_cons, plain_foldl_append_iff (hfits.append r), plain_append_iff hfits,
      List.forall_mem_cons, and_assoc]

end Document

end ModelIR
