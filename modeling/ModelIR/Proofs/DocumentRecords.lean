import ModelIR.Manifest.Document
import ModelIR.Proofs.PlainNodes

/-!
# Records of a document

The records of a document are kept in holders: the container of models, or the sections of devices.
Adding a record adds it behind the records of every holder (`records_append`), and what is read back
after a document is written has the same holders and records (`records_settled`).
-/

namespace ModelIR

open Xml

namespace Xml

/-! ## Elements among nodes -/

/-- The element with a child behind its children. -/
def Element.push (child : Node) (e : Element) : Element :=
  { e with children := e.children ++ [child] }

theorem exists_element_of_isElement {node : Node} {name : String} (h : node.isElement name = true) :
    ∃ tag children, node = .element tag children := by
  cases node <;> first | exact ⟨_, _, rfl⟩ | simp [Node.isElement] at h

theorem element?_settled : ∀ node : Node,
    node.settled.element? = node.element?.map Element.settled
  | .element _ _ => rfl
  | .text _ => rfl
  | .comment _ => rfl
  | .instruction _ _ => rfl

theorem filterMap_flushText (run : List Char) : (flushText run).filterMap Node.element? = [] := by
  rw [flushText]
  split_ifs <;> rfl

theorem filterMap_settle : ∀ (nodes : List Node) (run : List Char),
    (settle run nodes).filterMap Node.element? =
      (nodes.filterMap Node.element?).map Element.settled
  | [], run => filterMap_flushText run
  | node :: nodes, run => by
    by_cases htext : node.isText
    · obtain ⟨t, rfl⟩ := exists_text_of_isText htext
      exact filterMap_settle nodes (run ++ t.toList)
    · rw [Bool.not_eq_true] at htext
      rw [settle_markup htext, List.filterMap_append, filterMap_flushText, List.nil_append,
        List.filterMap_cons, List.filterMap_cons, element?_settled, filterMap_settle nodes]
      rcases node.element? with _ | e <;> rfl

theorem childrenNamed_eq (e : Element) (name : String) :
    e.childrenNamed name = (e.children.filterMap Node.element?).filter (·.tag.name = name) := by
  rw [Element.childrenNamed, List.filterMap_filter, List.filter_filterMap]
  refine congrArg (List.filterMap · e.children) (funext fun node => ?_)
  cases node with
  | element tag children =>
    by_cases h : tag.name = name <;> simp [Node.isElement, Node.element?, Option.filter, h]
  | _ => simp [Node.isElement, Node.element?]

theorem childrenNamed_settled (e : Element) (name : String) :
    e.settled.childrenNamed name = (e.childrenNamed name).map Element.settled := by
  rw [childrenNamed_eq, childrenNamed_eq, Element.settled, filterMap_settle, List.filter_map]
  rfl

theorem length_childrenNamed (e : Element) (name : String) :
    (e.childrenNamed name).length = e.children.countP (·.isElement name) := by
  rw [Element.childrenNamed]
  induction e.children with
  | nil => rfl
  | cons node nodes ih =>
    rw [List.countP_cons, List.filter_cons, ← ih]
    by_cases h : node.isElement name
    · obtain ⟨tag, children, rfl⟩ := exists_element_of_isElement h
      rw [if_pos h, if_pos h]
      rfl
    · rw [if_neg h, if_neg h]
      rfl

theorem any_isElement (e : Element) (name : String) :
    e.children.any (·.isElement name) = !(e.childrenNamed name).isEmpty := by
  rw [Bool.eq_iff_iff, List.any_eq_true, Bool.not_eq_true', ← Bool.not_eq_true,
    List.isEmpty_iff_length_eq_zero, length_childrenNamed, ← ne_eq, ← Nat.pos_iff_ne_zero,
    List.countP_pos_iff]

end Xml

namespace Document

variable {d : Document} {kind : DocumentKind} {path : Path} {root record : Element}
  {e : ManifestError}

/-! ## Putting a child into elements -/

theorem isElement_pushInto (name : String) (child node : Xml.Node) :
    (pushInto child node).isElement name = node.isElement name := by
  cases node <;> rfl

theorem element?_pushInto (child node : Xml.Node) :
    (pushInto child node).element? = node.element?.map (Element.push child) := by
  cases node <;> rfl

theorem childrenNamed_pushIntoAll (name : String) (child : Xml.Node) (e : Element) :
    ({ e with children := pushIntoAll name child e.children } : Element).childrenNamed name =
      (e.childrenNamed name).map (Element.push child) := by
  rw [Element.childrenNamed, Element.childrenNamed, pushIntoAll]
  induction e.children with
  | nil => rfl
  | cons node nodes ih =>
    rw [List.map_cons, List.filter_cons, List.filter_cons]
    by_cases h : node.isElement name
    · rw [if_pos h, isElement_pushInto, if_pos h, if_pos h, List.filterMap_cons,
        List.filterMap_cons, element?_pushInto, ih]
      rcases node.element? with _ | f <;> rfl
    · rw [if_neg h, if_neg h, if_neg h, ih]

theorem childrenNamed_pushIntoFirst (name : String) (child : Xml.Node) (e : Element) :
    ({ e with children := pushIntoFirst name child e.children } : Element).childrenNamed name =
      match e.childrenNamed name with
      | [] => []
      | f :: rest => f.push child :: rest := by
  rw [Element.childrenNamed, Element.childrenNamed]
  induction e.children with
  | nil => rfl
  | cons node nodes ih =>
    rw [pushIntoFirst]
    by_cases h : node.isElement name
    · obtain ⟨tag, children, rfl⟩ := exists_element_of_isElement h
      rw [if_pos h, List.filter_cons, List.filter_cons, isElement_pushInto, if_pos h, if_pos h]
      rfl
    · rw [if_neg h, List.filter_cons, List.filter_cons, if_neg h, if_neg h, ih]

theorem any_pushIntoAll (name other : String) (child : Xml.Node) (nodes : List Xml.Node) :
    (pushIntoAll name child nodes).any (·.isElement other) = nodes.any (·.isElement other) := by
  rw [pushIntoAll, List.any_map]
  refine congrArg (List.any nodes) (funext fun node => ?_)
  by_cases h : node.isElement name <;> simp [h, isElement_pushInto]

theorem any_pushIntoFirst (name other : String) (child : Xml.Node) : ∀ nodes : List Xml.Node,
    (pushIntoFirst name child nodes).any (·.isElement other) = nodes.any (·.isElement other)
  | [] => rfl
  | node :: nodes => by
    rw [pushIntoFirst]
    split_ifs
    · rw [List.any_cons, List.any_cons, isElement_pushInto]
    · rw [List.any_cons, List.any_cons, any_pushIntoFirst name other child nodes]

/-! ## The place of the records -/

/-- The records of a document are in the place that its root tells. -/
def Fits (d : Document) (kind : DocumentKind) : Prop :=
  Container.ofRoot? d.root kind = some d.container

theorem ofRoot?_eq_none_iff : Container.ofRoot? root kind = none ↔
    (∀ node ∈ root.children, ¬ node.isElement containerName) ∧
      (kind = .tests → ∀ node ∈ root.children, ¬ node.isElement deviceName) := by
  rw [Container.ofRoot?]
  split_ifs with hmodels hdevices
  · obtain ⟨node, hnode, hmodel⟩ := List.any_eq_true.1 hmodels
    exact iff_of_false id fun h => h.1 node hnode hmodel
  · rw [Bool.and_eq_true, decide_eq_true_eq, List.any_eq_true] at hdevices
    obtain ⟨htests, node, hnode, hdevice⟩ := hdevices
    exact iff_of_false id fun h => h.2 htests node hnode hdevice
  · rw [List.any_eq_true] at hmodels
    rw [Bool.and_eq_true, decide_eq_true_eq, List.any_eq_true] at hdevices
    refine iff_of_true rfl ⟨fun node hnode hmodel => hmodels ⟨node, hnode, hmodel⟩, ?_⟩
    exact fun htests node hnode hdevice => hdevices ⟨htests, node, hnode, hdevice⟩

theorem ofElement_eq_error_iff : ofElement path root kind = .error e ↔
    Container.ofRoot? root kind = none ∧ e = .missingContainer path := by
  rw [ofElement]
  rcases Container.ofRoot? root kind with _ | container
  · simp [eq_comm]
  · simp

theorem ofElement_eq_ok_iff : ofElement path root kind = .ok d ↔
    d.path = path ∧ d.root = root ∧ d.Fits kind := by
  obtain ⟨path', root', container⟩ := d
  rw [ofElement, Fits]
  constructor
  · intro h
    split at h
    · next hcontainer =>
      cases h
      exact ⟨rfl, rfl, hcontainer⟩
    · cases h
  · rintro ⟨rfl, rfl, h⟩
    dsimp only at h ⊢
    rw [h]

theorem ofBytes_eq_ok_iff {bytes : ByteArray} : ofBytes path bytes kind = .ok d ↔
    Element.parse bytes = some d.root ∧ d.path = path ∧ d.Fits kind := by
  rw [ofBytes]
  rcases Element.parse bytes with _ | root
  · simp
  · simp only [ofElement_eq_ok_iff, Option.some.injEq]
    rw [eq_comm (a := root), and_left_comm]

theorem of_ofBytes {bytes : ByteArray} (h : ofBytes path bytes kind = .ok d) :
    Element.parse bytes = some d.root ∧ d.path = path ∧ d.Fits kind :=
  ofBytes_eq_ok_iff.1 h

theorem exists_of_ofOpened {opened : Except FileError Opened}
    (h : ofOpened path kind opened = .ok d) :
    ∃ bytes, opened = .ok (.file bytes) ∧ ofBytes path bytes kind = .ok d := by
  rcases opened with e | (bytes | _)
  · exact nomatch h
  · exact ⟨bytes, rfl, h⟩
  · exact nomatch h

theorem of_ofOpened {opened : Except FileError Opened} (h : ofOpened path kind opened = .ok d) :
    d.path = path ∧ d.Fits kind := by
  obtain ⟨bytes, -, hbytes⟩ := exists_of_ofOpened h
  exact (of_ofBytes hbytes).2

theorem Fits.models_iff (h : d.Fits kind) :
    d.container = .models ↔ ∃ node ∈ d.root.children, node.isElement containerName := by
  rw [← List.any_eq_true]
  rw [Fits, Container.ofRoot?] at h
  split_ifs at h with hmodels hdevices
  · exact iff_of_true (Option.some.inj h).symm hmodels
  · exact iff_of_false (by rw [← Option.some.inj h]; decide) hmodels

theorem Fits.of_devices (h : d.Fits kind) (hcontainer : d.container = .devices) :
    kind = .tests ∧ ∃ node ∈ d.root.children, node.isElement deviceName := by
  rw [Fits, Container.ofRoot?, hcontainer] at h
  split_ifs at h with hmodels hdevices
  · simp at h
  · obtain ⟨htests, hdevice⟩ := Bool.and_eq_true_iff.1 hdevices
    exact ⟨of_decide_eq_true htests, List.any_eq_true.1 hdevice⟩

theorem ofRoot?_congr {root root' : Element}
    (h : ∀ name, root'.children.any (·.isElement name) = root.children.any (·.isElement name)) :
    Container.ofRoot? root' kind = Container.ofRoot? root kind := by
  rw [Container.ofRoot?, Container.ofRoot?, h, h]

theorem Fits.append (h : d.Fits kind) (record : Element) : (d.append record).Fits kind := by
  refine (ofRoot?_congr fun name => ?_).trans h
  rw [Document.append]
  rcases d.container with _ | _
  · exact any_pushIntoFirst containerName name record.toNode d.root.children
  · exact any_pushIntoAll deviceName name record.toNode d.root.children

/-- The document as it is read back. -/
def settled (d : Document) : Document :=
  { d with root := d.root.settled }

theorem Fits.settled (h : d.Fits kind) : d.settled.Fits kind := by
  refine (ofRoot?_congr fun name => ?_).trans h
  rw [any_isElement, any_isElement, Document.settled, childrenNamed_settled, List.isEmpty_map]

theorem holders_append (d : Document) (record : Element) :
    (d.append record).holders = d.holders.map (Element.push record.toNode) := by
  obtain ⟨path, root, container⟩ := d
  cases container with
  | models =>
    have h := childrenNamed_pushIntoFirst containerName record.toNode root
    simp only [holders, append]
    rw [h]
    rcases root.childrenNamed containerName with _ | ⟨f, rest⟩ <;> rfl
  | devices => exact childrenNamed_pushIntoAll deviceName record.toNode root

theorem holders_settled (d : Document) : d.settled.holders = d.holders.map Element.settled := by
  obtain ⟨path, root, container⟩ := d
  cases container with
  | models =>
    simp only [holders, settled]
    rw [childrenNamed_settled, List.map_take]
  | devices => exact childrenNamed_settled root deviceName

/-! ## Records -/

/-- The tags of the records that an element holds. -/
def recordTags (holder : Element) : List Tag :=
  (holder.childrenNamed recordName).map Element.tag

/-- The tags of the records of each holder. -/
def records (d : Document) : List (List Tag) :=
  d.holders.map recordTags

theorem recordTags_push (holder : Element) (h : record.tag.name = recordName) :
    recordTags (holder.push record.toNode) = recordTags holder ++ [record.tag] := by
  rw [recordTags, recordTags, childrenNamed_eq, childrenNamed_eq, Element.push,
    List.filterMap_append, List.filter_append, List.map_append]
  simp [Element.toNode, Node.element?, h]

theorem recordTags_settled (holder : Element) : recordTags holder.settled = recordTags holder := by
  rw [recordTags, recordTags, childrenNamed_settled, List.map_map]
  rfl

theorem records_append (d : Document) (h : record.tag.name = recordName) :
    (d.append record).records = d.records.map (· ++ [record.tag]) := by
  rw [records, records, holders_append, List.map_map, List.map_map]
  exact List.map_congr_left fun holder _ => recordTags_push holder h

theorem records_settled (d : Document) : d.settled.records = d.records := by
  rw [records, records, holders_settled, List.map_map]
  exact List.map_congr_left fun holder _ => recordTags_settled holder

theorem path_foldl_append : ∀ (rs : List Element) (d : Document), (rs.foldl append d).path = d.path
  | [], _ => rfl
  | r :: rs, d => path_foldl_append rs (d.append r)

theorem Fits.foldl_append : ∀ (rs : List Element) {d : Document}, d.Fits kind →
    (rs.foldl Document.append d).Fits kind
  | [], _, h => h
  | r :: rs, _, h => Fits.foldl_append rs (h.append r)

/-- Records that are added one after the other are behind the records of every holder, in this
order. -/
theorem records_foldl_append : ∀ {rs : List Element} (d : Document),
    (∀ r ∈ rs, r.tag.name = recordName) →
      (rs.foldl append d).records = d.records.map (· ++ rs.map Element.tag)
  | [], d, _ => by simp
  | r :: rs, d, h => by
    obtain ⟨hr, hrs⟩ := List.forall_mem_cons.1 h
    rw [List.foldl_cons, records_foldl_append _ hrs, records_append d hr, List.map_map]
    simp [Function.comp_def]

theorem length_recordTags (holder : Element) :
    (recordTags holder).length = holder.children.countP (·.isElement recordName) := by
  rw [recordTags, List.length_map, length_childrenNamed]

/-- The records are counted for every holder. -/
theorem modelCount_eq (d : Document) : d.modelCount = d.records.flatten.length := by
  rw [modelCount, records, List.countP_flatMap, List.length_flatten, List.map_map]
  refine congrArg List.sum (List.map_congr_left fun holder _ => ?_)
  exact (length_recordTags holder).symm

/-! ## Counting -/

/-- How many elements hold the records: the container of models, or all sections of devices. -/
def sections (d : Document) : Nat :=
  match d.container with
  | .models => 1
  | .devices => (d.root.childrenNamed deviceName).length

theorem Fits.length_holders (h : d.Fits kind) : d.holders.length = d.sections := by
  obtain ⟨path, root, container⟩ := d
  cases container with
  | models =>
    have hmodels : root.children.any (·.isElement containerName) = true :=
      List.any_eq_true.2 (h.models_iff.1 rfl)
    rw [any_isElement, Bool.not_eq_true', ← Bool.not_eq_true, List.isEmpty_iff_length_eq_zero]
      at hmodels
    simp only [holders, sections, List.length_take]
    omega
  | devices => rfl

/-- Documents of references have one holder. -/
theorem Fits.sections_references (h : d.Fits .references) : d.sections = 1 := by
  obtain ⟨path, root, container⟩ := d
  cases container with
  | models => rfl
  | devices => simpa using (h.of_devices rfl).1

/-- Records that are added to every holder are counted once for each. -/
theorem Fits.modelCount_of_records (h : d.Fits kind) {d' : Document} {tags : List Tag}
    (hrecords : d'.records = d.records.map (· ++ tags)) :
    d'.modelCount = d.modelCount + d.sections * tags.length := by
  have hsum : ∀ l : List (List Tag),
      (l.map (· ++ tags)).flatten.length = l.flatten.length + l.length * tags.length := by
    intro l
    induction l with
    | nil => simp
    | cons first rest ih =>
      rw [List.map_cons, List.flatten_cons, List.flatten_cons, List.length_append, ih,
        List.length_append, List.length_append, List.length_cons, Nat.succ_mul]
      omega
  rw [modelCount_eq, modelCount_eq, hrecords, hsum, ← h.length_holders, records, List.length_map]

theorem Fits.modelCount_foldl_append {rs : List Element} (h : d.Fits kind)
    (hrecords : ∀ r ∈ rs, r.tag.name = recordName) :
    (rs.foldl Document.append d).modelCount = d.modelCount + d.sections * rs.length := by
  rw [h.modelCount_of_records (records_foldl_append d hrecords), List.length_map]

end Document

end ModelIR
