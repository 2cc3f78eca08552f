import ModelIR.Proofs.DocumentRecords

/-!
# Appended records

The place of the records is looked up anew for every record that is added, and every time the same
nodes are found, since adding a record gives no node another name: the first container of models
(`Document.foldl_append_models`), or the sections of devices (`Document.foldl_append_devices`). They
end up with all records behind their own children, and all other nodes stay as they were.
-/

namespace ModelIR

open Xml

namespace Document

variable {d : Document} {kind : DocumentKind} {path : Path} {root : Element} {name : String}
  {node : Xml.Node} {nodes before behind : List Xml.Node} {record : Element}
  {records : List Element}

/-! ## Nodes -/

/-- A node, with records behind its children if it is an element. -/
def holding (records : List Element) : Xml.Node → Xml.Node
  | .element tag children => .element tag (children ++ records.map Element.toNode)
  | node => node

theorem holding_nil (node : Xml.Node) : holding [] node = node := by
  cases node with
  | element tag children => exact congrArg (Xml.Node.element tag) (List.append_nil children)
  | _ => rfl

theorem holding_pushInto (record : Element) (records : List Element) (node : Xml.Node) :
    holding records (pushInto record.toNode node) = holding (record :: records) node := by
  cases node with
  | element tag children => exact congrArg (Xml.Node.element tag) (List.append_assoc ..)
  | _ => rfl

theorem pushIntoFirst_append (hbefore : ∀ other ∈ before, ¬ other.isElement name)
    (hnode : node.isElement name) (child : Xml.Node) (behind : List Xml.Node) :
    pushIntoFirst name child (before ++ node :: behind) =
      before ++ pushInto child node :: behind := by
  induction before with
  | nil => exact if_pos hnode
  | cons other before ih =>
    obtain ⟨hother, hbefore⟩ := List.forall_mem_cons.1 hbefore
    rw [List.cons_append, pushIntoFirst, if_neg hother, ih hbefore, List.cons_append]

/-- Nodes, with records behind the children of all elements of a name. -/
def holdingAll (name : String) (records : List Element) (nodes : List Xml.Node) : List Xml.Node :=
  nodes.map fun node => if node.isElement name then holding records node else node

theorem holdingAll_nil (name : String) (nodes : List Xml.Node) :
    holdingAll name [] nodes = nodes := by
  simp [holdingAll, holding_nil]

theorem holdingAll_pushIntoAll (name : String) (record : Element) (records : List Element)
    (nodes : List Xml.Node) : holdingAll name records (pushIntoAll name record.toNode nodes) =
      holdingAll name (record :: records) nodes := by
  rw [holdingAll, holdingAll, pushIntoAll, List.map_map]
  refine List.map_congr_left fun node _ => ?_
  by_cases h : node.isElement name
  · simp [h, isElement_pushInto, holding_pushInto]
  · simp [h]

theorem exists_first (h : ∃ node ∈ nodes, node.isElement name) : ∃ before tag children behind,
    nodes = before ++ .element tag children :: behind ∧ tag.name = name ∧
      ∀ other ∈ before, ¬ other.isElement name := by
  obtain ⟨first, hfirst⟩ := Option.isSome_iff_exists.1 (List.find?_isSome.2 h)
  obtain ⟨hname, before, behind, hnodes, hbefore⟩ := List.find?_eq_some_iff_append.1 hfirst
  obtain ⟨tag, children, rfl⟩ := exists_element_of_isElement hname
  exact ⟨before, tag, children, behind, hnodes, of_decide_eq_true hname, by simpa using hbefore⟩

/-! ## Steps and runs -/

theorem append_models (hcontainer : d.container = .models)
    (hbefore : ∀ other ∈ before, ¬ other.isElement containerName)
    (hnode : node.isElement containerName)
    (hchildren : d.root.children = before ++ node :: behind) :
    d.append record =
      { d with root := ⟨d.root.tag, before ++ pushInto record.toNode node :: behind⟩ } := by
  simp only [append, hcontainer]
  rw [hchildren, pushIntoFirst_append hbefore hnode]

theorem append_devices (hcontainer : d.container = .devices) (record : Element) :
    d.append record =
      { d with root := ⟨d.root.tag, pushIntoAll deviceName record.toNode d.root.children⟩ } := by
  simp only [append, hcontainer]

/-- A node with a record more has kept its name, so the next record finds it again. -/
theorem foldl_append_models (hbefore : ∀ other ∈ before, ¬ other.isElement containerName) :
    ∀ (records : List Element) {d : Document} {node : Xml.Node}, d.container = .models →
      node.isElement containerName → d.root.children = before ++ node :: behind →
        records.foldl append d =
          { d with root := ⟨d.root.tag, before ++ holding records node :: behind⟩ }
  | [], ⟨_, ⟨_, _⟩, _⟩, node, _, _, hchildren => by
    rw [holding_nil, ← hchildren]
    rfl
  | record :: records, d, node, hcontainer, hnode, hchildren => by
    have hpushed := (isElement_pushInto containerName record.toNode node).trans hnode
    have hstep : d.append record =
        { d with root := ⟨d.root.tag, before ++ pushInto record.toNode node :: behind⟩ } :=
      append_models hcontainer hbefore hnode hchildren
    have hrest := foldl_append_models hbefore records (hstep ▸ hcontainer) hpushed
      (congrArg (·.root.children) hstep)
    rw [holding_pushInto] at hrest
    rw [List.foldl_cons, hrest, hstep]

theorem foldl_append_devices : ∀ (records : List Element) {d : Document}, d.container = .devices →
    records.foldl append d =
      { d with root := ⟨d.root.tag, holdingAll deviceName records d.root.children⟩ }
  | [], ⟨_, ⟨_, children⟩, _⟩, _ => by
    rw [holdingAll_nil]
    rfl
  | record :: records, d, hcontainer => by
    have hstep := append_devices hcontainer record
    rw [List.foldl_cons, foldl_append_devices records (hstep ▸ hcontainer), hstep,
      holdingAll_pushIntoAll]

/-! ## What a document becomes -/

/-- A root makes a document unless it has no container of models, nor sections of devices where they
will do. However many records are added to the document, its root still makes it, with the records
behind the children of the first container of models, or of every section of devices, and all else
as it was; and each record is counted once for each element that it was added to. -/
theorem append_effects (path : Path) (root : Element) (kind : DocumentKind) :
    (∀ e, ofElement path root kind = .error e ↔ e = .missingContainer path ∧
      (∀ node ∈ root.children, ¬ node.isElement containerName) ∧
      (kind = .references ∨ ∀ node ∈ root.children, ¬ node.isElement deviceName)) ∧
    ∀ d, ofElement path root kind = .ok d → d.path = path ∧ d.root = root ∧
      (d.container = .models ↔ ∃ node ∈ root.children, node.isElement containerName) ∧
      ∀ records : List Element,
        ofElement path (records.foldl append d).root kind = .ok (records.foldl append d) ∧
        (d.container = .models → ∃ before tag children behind,
          root.children = before ++ .element tag children :: behind ∧
          (∀ other ∈ before, ¬ other.isElement containerName) ∧ tag.name = containerName ∧
          records.foldl append d = { d with root := ⟨root.tag,
            before ++ .element tag (children ++ records.map Element.toNode) :: behind⟩ } ∧
          ((∀ record ∈ records, record.tag.name = recordName) →
            (records.foldl append d).modelCount = d.modelCount + records.length)) ∧
        (d.container = .devices → (∃ node ∈ root.children, node.isElement deviceName) ∧
          records.foldl append d =
            { d with root := ⟨root.tag, holdingAll deviceName records root.children⟩ } ∧
          ((∀ record ∈ records, record.tag.name = recordName) →
            (records.foldl append d).modelCount =
              d.modelCount + root.children.countP (·.isElement deviceName) * records.length)) := by
  refine ⟨fun e => ?_, fun d h => ?_⟩
  · have htests : (kind = .tests → ∀ node ∈ root.children, ¬ node.isElement deviceName) ↔
        (kind = .references ∨ ∀ node ∈ root.children, ¬ node.isElement deviceName) := by
      cases kind <;> simp
    rw [ofElement_eq_error_iff, ofRoot?_eq_none_iff, htests, and_comm]
  obtain ⟨rfl, rfl, hfits⟩ := ofElement_eq_ok_iff.1 h
  refine ⟨rfl, rfl, hfits.models_iff, fun records =>
    ⟨?_, fun hcontainer => ?_, fun hcontainer => ?_⟩⟩
  · exact ofElement_eq_ok_iff.2 ⟨path_foldl_append records d, rfl, hfits.foldl_append records⟩
  · obtain ⟨before, tag, children, behind, hchildren, hname, hbefore⟩ :=
      exists_first (hfits.models_iff.1 hcontainer)
    have hnode : (Xml.Node.element tag children).isElement containerName := decide_eq_true hname
    refine ⟨before, tag, children, behind, hchildren, hbefore, hname,
      foldl_append_models hbefore records hcontainer hnode hchildren, fun hrecords => ?_⟩
    rw [hfits.modelCount_foldl_append hrecords, sections, hcontainer, Nat.one_mul]
  · refine ⟨(hfits.of_devices hcontainer).2, foldl_append_devices records hcontainer,
      fun hrecords => ?_⟩
    rw [hfits.modelCount_foldl_append hrecords, sections, hcontainer]
    dsimp only
    rw [length_childrenNamed]

/-- Two sections of devices, of which one has a section and a container of models in it. -/
def nestedSections : List Xml.Node :=
  [.element { name := deviceName }
      [.element { name := deviceName } [], .element { name := containerName } []],
    .text "t", .element { name := deviceName, attributes := [("name", "GPU")] } []]

/-- A document with sections only. -/
def sectioned : Document where
  path := .ofString "t.xml"
  root := { tag := { name := "c" }, children := nestedSections }
  container := .devices

/-- A document with two containers of models behind the sections. -/
def crowded : Document where
  path := .ofString "t.xml"
  root := { tag := { name := "c" }, children := nestedSections ++
    [.element { name := containerName, nsPrefix := some "p" } [.comment "m"],
      .element { name := containerName } []] }
  container := .models

/-- Two records. -/
def twoRecords : List Element :=
  [recordElement [("name", "a")], recordElement [("name", "b")]]

/-- Two records are added to each section of one document, and to one container of the other. -/
theorem sections_effects :
    ofElement sectioned.path sectioned.root .tests = .ok sectioned ∧
    twoRecords.foldl append sectioned = { sectioned with root := ⟨sectioned.root.tag,
      [.element { name := deviceName } ([.element { name := deviceName } [],
          .element { name := containerName } []] ++ twoRecords.map Element.toNode), .text "t",
        .element { name := deviceName, attributes := [("name", "GPU")] }
          (twoRecords.map Element.toNode)]⟩ } ∧
    (twoRecords.foldl append sectioned).modelCount = 4 ∧
    ofElement crowded.path crowded.root .tests = .ok crowded ∧
    (twoRecords.foldl append crowded).modelCount = 2 := by
  have hsectioned : ofElement sectioned.path sectioned.root .tests = .ok sectioned := rfl
  have hcrowded : ofElement crowded.path crowded.root .tests = .ok crowded := rfl
  have hnames : ∀ record ∈ twoRecords, record.tag.name = recordName := by
    simp [twoRecords, recordElement]
  obtain ⟨-, -, -, hsections⟩ := (append_effects _ _ _).2 sectioned hsectioned
  obtain ⟨-, hroot, hcount⟩ := (hsections twoRecords).2.2 rfl
  obtain ⟨-, -, -, hmodels⟩ := (append_effects _ _ _).2 crowded hcrowded
  obtain ⟨_, _, _, _, -, -, -, -, hsingle⟩ := (hmodels twoRecords).2.1 rfl
  exact ⟨hsectioned, hroot, hcount hnames, hcrowded, hsingle hnames⟩

end Document

end ModelIR
