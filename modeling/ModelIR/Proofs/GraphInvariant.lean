import ModelIR.Graph.Edit
import ModelIR.Proofs.Lookup

/-!
# The invariant of graphs

In a well-formed graph the index of names leads to the node of each name and to nothing else, edges
join nodes, and the vacated slots are empty ones. `validate_eq_ok_iff` says what the check accepts.
-/

namespace ModelIR

namespace Graph

variable {g g' : Graph} {i j : NodeId}

/-- What the node in a slot stands for. -/
def kind? (g : Graph) (i : NodeId) : Option NodeKind :=
  (g.node? i).map Node.kind

/-- The vacated slots are empty ones, each of them listed once. -/
structure Vacancies (g : Graph) : Prop where
  lt : ∀ i ∈ g.vacated, i < g.slots.length
  empty : ∀ i ∈ g.vacated, g.node? i = none
  nodup : g.vacated.Nodup

/-- The index of names is that of the nodes, so that names are unique, and edges join nodes. A node
that is renamed in place keeps its entry in the index, so a graph with such a node is not
well-formed, even if its names are unique. -/
structure WellFormed (g : Graph) : Prop where
  find_iff : ∀ name i, g.find? name = some i ↔ ∃ node, g.node? i = some node ∧ node.name = name
  source_live : ∀ e ∈ g.edges, g.contains e.source
  target_live : ∀ e ∈ g.edges, g.contains e.target
  vacated_lt : ∀ i ∈ g.vacated, i < g.slots.length
  vacated_empty : ∀ i ∈ g.vacated, g.node? i = none
  vacated_nodup : g.vacated.Nodup

/-- Every edge joins an operation and a tensor. -/
def Alternating (g : Graph) : Prop :=
  ∀ e ∈ g.edges, (g.kind? e.source = some .op ∧ g.kind? e.target = some .data) ∨
    (g.kind? e.source = some .data ∧ g.kind? e.target = some .op)

/-- A tensor has at most one producer, an operation at most one input per port. -/
structure Consistent (g : Graph) : Prop where
  producers : ∀ i, g.kind? i = some .data → (g.incoming i).length ≤ 1
  ports : ∀ i, g.kind? i = some .op → ((g.incoming i).map Edge.port).Nodup

theorem contains_iff : g.contains i = true ↔ ∃ node, g.node? i = some node := by
  rw [contains, Option.isSome_iff_exists]

theorem contains_eq_false_iff : g.contains i = false ↔ g.node? i = none := by
  rw [contains, Option.isSome_eq_false_iff, Option.isNone_iff_eq_none]

theorem contains_of_kind? {k : NodeKind} (h : g.kind? i = some k) : g.contains i := by
  obtain ⟨node, hnode, -⟩ := Option.map_eq_some_iff.1 h
  exact contains_iff.2 ⟨node, hnode⟩

/-- What an operation leads to is a tensor. -/
theorem Alternating.kind?_target (alt : g.Alternating) {e : Edge} (he : e ∈ g.edges)
    (hop : g.kind? e.source = some .op) : g.kind? e.target = some .data := by
  rcases alt e he with ⟨-, h⟩ | ⟨h, -⟩
  · exact h
  · rw [hop] at h
    simp at h

/-- What reads a tensor is an operation. -/
theorem Alternating.kind?_reader (alt : g.Alternating) {e : Edge} (he : e ∈ g.edges)
    (hdata : g.kind? e.source = some .data) : g.kind? e.target = some .op := by
  rcases alt e he with ⟨h, -⟩ | ⟨-, h⟩
  · rw [hdata] at h
    simp at h
  · exact h

theorem lt_length_of_node? {node : Node} (h : g.node? i = some node) : i < g.slots.length := by
  by_contra hi
  rw [node?, List.getElem?_eq_none (Nat.le_of_not_lt hi)] at h
  simp at h

theorem mem_nodeIds : i ∈ g.nodeIds ↔ g.contains i := by
  rw [nodeIds, List.mem_filter, List.mem_range, and_iff_right_iff_imp]
  intro h
  obtain ⟨node, hnode⟩ := contains_iff.1 h
  exact lt_length_of_node? hnode

theorem nodup_nodeIds (g : Graph) : g.nodeIds.Nodup :=
  List.nodup_range.filter _

theorem WellFormed.vacancies (h : g.WellFormed) : g.Vacancies :=
  ⟨h.vacated_lt, h.vacated_empty, h.vacated_nodup⟩

theorem nodeIds_perm_of_kept {ids : List NodeId} (fresh : ∀ i ∈ ids, g.node? i = none)
    (nodup : ids.Nodup) (live : ∀ i ∈ ids, g'.contains i)
    (kept : ∀ i ∉ ids, g'.node? i = g.node? i) : g'.nodeIds.Perm (ids ++ g.nodeIds) := by
  refine (List.perm_ext_iff_of_nodup (nodup_nodeIds g') ?_).2 fun j => ?_
  · refine nodup.append (nodup_nodeIds g) fun j hj hold => ?_
    rw [mem_nodeIds, contains, fresh j hj] at hold
    simp at hold
  · rw [List.mem_append, mem_nodeIds, mem_nodeIds]
    by_cases hj : j ∈ ids
    · exact iff_of_true (live j hj) (.inl hj)
    · rw [contains, contains, kept j hj]
      simp [hj]

/-- The names that are taken are those of the nodes. -/
theorem WellFormed.isFree_eq_false_iff (h : g.WellFormed) {name : String} :
    g.isFree name = false ↔ ∃ i node, g.node? i = some node ∧ node.name = name := by
  rw [isFree, Option.isNone_eq_false_iff, Option.isSome_iff_exists]
  exact exists_congr fun i => h.find_iff name i

theorem WellFormed.not_source (h : g.WellFormed) (hi : g.node? i = none) {e : Edge}
    (he : e ∈ g.edges) : e.source ≠ i := by
  rintro rfl
  have := h.source_live e he
  rw [contains, hi] at this
  simp at this

theorem WellFormed.not_target (h : g.WellFormed) (hi : g.node? i = none) {e : Edge}
    (he : e ∈ g.edges) : e.target ≠ i := by
  rintro rfl
  have := h.target_live e he
  rw [contains, hi] at this
  simp at this

theorem WellFormed.incoming_eq_nil (h : g.WellFormed) (hi : g.node? i = none) :
    g.incoming i = [] := by
  refine List.filter_eq_nil_iff.2 fun e he => ?_
  simpa using h.not_target hi he

/-- A graph is well-formed if each node is entered once and under its name, and nothing else is. -/
theorem wellFormed_of_names (hnodup : (g.names.map Prod.fst).Nodup)
    (hnamed : ∀ entry ∈ g.names, (g.node? entry.2).map Node.name = some entry.1)
    (hentered : ∀ i ∈ g.nodeIds, i ∈ g.names.map Prod.snd)
    (hlive : ∀ e ∈ g.edges, g.contains e.source ∧ g.contains e.target) (hvacated : g.vacated = []) :
    g.WellFormed where
  find_iff name i := by
    constructor
    · intro h
      exact Option.map_eq_some_iff.1 (hnamed (name, i) (mem_of_lookup h))
    · rintro ⟨node, hnode, rfl⟩
      have hi := hentered i (mem_nodeIds.2 (contains_iff.2 ⟨node, hnode⟩))
      obtain ⟨⟨name, i⟩, hmem, rfl⟩ := List.mem_map.1 hi
      have hname := hnamed _ hmem
      rw [hnode, Option.map_some, Option.some.injEq] at hname
      rw [hname]
      exact lookup_of_mem hnodup hmem
  source_live e he := (hlive e he).1
  target_live e he := (hlive e he).2
  vacated_lt i hi := by simp [hvacated] at hi
  vacated_empty i hi := by simp [hvacated] at hi
  vacated_nodup := by simp [hvacated]

/-! ## Validation -/

theorem firstRepeat?_eq_none_iff {α : Type} [DecidableEq α] {seen l : List α} :
    firstRepeat? seen l = none ↔ l.Nodup ∧ ∀ a ∈ l, a ∉ seen := by
  induction l generalizing seen with
  | nil => simp [firstRepeat?]
  | cons a l ih =>
    rw [firstRepeat?]
    split_ifs with ha
    · simp [ha]
    · rw [ih, List.nodup_cons]
      constructor
      · rintro ⟨hnodup, hseen⟩
        refine ⟨⟨fun hal => hseen a hal List.mem_cons_self, hnodup⟩, ?_⟩
        intro b hb
        rcases List.mem_cons.1 hb with rfl | hb
        · exact ha
        · exact fun h => hseen b hb (List.mem_cons_of_mem _ h)
      · rintro ⟨⟨hal, hnodup⟩, hseen⟩
        refine ⟨hnodup, fun b hb h => ?_⟩
        rcases List.mem_cons.1 h with rfl | h
        · exact hal hb
        · exact hseen b (List.mem_cons_of_mem _ hb) h

theorem defectAt?_eq_none_iff {node : Node} (h : g.node? i = some node) :
    g.defectAt? i = none ↔ (node.kind = .data → (g.incoming i).length ≤ 1) ∧
      (node.kind = .op → ((g.incoming i).map Edge.port).Nodup) := by
  rw [defectAt?, h]
  rcases hk : node.kind with _ | _
  · simp [hk, firstRepeat?_eq_none_iff]
  · simp [hk]

theorem validate_eq_ok_iff : g.validate = .ok () ↔ g.Consistent := by
  have hdefect : g.validate = .ok () ↔ ∀ i ∈ g.nodeIds, g.defectAt? i = none := by
    rw [validate, ← List.findSome?_eq_none_iff]
    change _ ↔ g.defect? = none
    rcases g.defect? with _ | e <;> simp
  rw [hdefect]
  constructor
  · intro h
    refine ⟨fun i hi => ?_, fun i hi => ?_⟩ <;>
    · obtain ⟨node, hnode, hk⟩ := Option.map_eq_some_iff.1 hi
      have := (defectAt?_eq_none_iff hnode).1 (h i (mem_nodeIds.2 (contains_iff.2 ⟨node, hnode⟩)))
      tauto
  · intro h i hi
    obtain ⟨node, hnode⟩ := contains_iff.1 (mem_nodeIds.1 hi)
    refine (defectAt?_eq_none_iff hnode).2 ⟨fun hk => h.producers i ?_, fun hk => h.ports i ?_⟩ <;>
    · rw [kind?, hnode, ← hk]
      rfl

end Graph

end ModelIR
