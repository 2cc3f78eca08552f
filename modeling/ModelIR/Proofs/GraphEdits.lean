import Mathlib.Data.List.Perm.Basic
import ModelIR.Proofs.EditRun
import ModelIR.Proofs.GraphInvariant

/-!
# What single edits do

A node that is added takes a slot that no node is in and no edge touches, and leaves all else as it
is (`Added`). Consumers that are moved over keep their ports: up to the order of the edges, those
that left the one node leave the other (`edges_moveOutgoing`).
-/

namespace ModelIR

namespace Graph

variable {g g' : Graph} {i j : NodeId} {node : Node}

/-! ## Adding a node -/

/-- `g'` is `g` with a node more, in slot `i`. -/
structure Added (g : Graph) (node : Node) (i : NodeId) (g' : Graph) : Prop where
  fresh : g.node? i = none
  node? : ∀ j, g'.node? j = if j = i then some node else g.node? j
  find? : ∀ name, g'.find? name = if name = node.name then some i else g.find? name
  edges : g'.edges = g.edges
  vacancies : g'.Vacancies

theorem insert_node? (v : g.Vacancies) (node : Node) (j : NodeId) :
    (g.insert node).2.node? j = if j = (g.insert node).1 then some node else g.node? j := by
  unfold insert
  rcases hv : g.vacated with _ | ⟨i, vacated⟩
  · simp only [node?, List.getElem?_append]
    split_ifs with h1 h2 h2
    · exact absurd h1 (by rw [h2]; exact Nat.lt_irrefl _)
    · rfl
    · subst h2
      simp
    · rw [List.getElem?_eq_none (l := g.slots) (Nat.le_of_not_lt h1), List.getElem?_eq_none]
      exact Nat.sub_pos_of_lt (Nat.lt_of_le_of_ne (Nat.le_of_not_lt h1) (Ne.symm h2))
  · have hi := v.lt i (by simp [hv])
    simp only [node?, List.getElem?_set]
    split_ifs with h1 h2 h2
    · rfl
    · exact absurd h1.symm h2
    · exact absurd h2.symm h1
    · rfl

theorem insert_fresh (v : g.Vacancies) (node : Node) : g.node? (g.insert node).1 = none := by
  unfold insert
  rcases hv : g.vacated with _ | ⟨i, vacated⟩
  · simp [node?]
  · exact v.empty i (by simp [hv])

theorem insert_find? (node : Node) (name : String) :
    (g.insert node).2.find? name =
      if name = node.name then some (g.insert node).1 else g.find? name := by
  unfold insert
  rcases g.vacated with _ | ⟨i, vacated⟩ <;>
  · simp only [find?, List.lookup_cons]
    split_ifs with h
    · simp [h]
    · rw [beq_false_of_ne h]

theorem insert_edges (node : Node) : (g.insert node).2.edges = g.edges := by
  unfold insert
  rcases g.vacated with _ | ⟨i, vacated⟩ <;> rfl

theorem insert_vacated (node : Node) : (g.insert node).2.vacated = g.vacated.tail := by
  unfold insert
  rcases g.vacated with _ | ⟨i, vacated⟩ <;> rfl

theorem ne_insert_of_mem_tail (v : g.Vacancies) (node : Node) {i : NodeId}
    (hi : i ∈ g.vacated.tail) : i ≠ (g.insert node).1 := by
  have hnodup := v.nodup
  unfold insert
  rcases hv : g.vacated with _ | ⟨k, vacated⟩ <;> rw [hv] at hi hnodup
  · simp at hi
  · rintro rfl
    exact (List.nodup_cons.1 hnodup).1 hi

theorem Vacancies.insert (v : g.Vacancies) (node : Node) : (g.insert node).2.Vacancies where
  lt i hi := by
    unfold Graph.insert at hi ⊢
    rcases hv : g.vacated with _ | ⟨k, vacated⟩ <;> rw [hv] at hi
    · simp at hi
    · simpa using v.lt i (by rw [hv]; exact List.mem_cons_of_mem _ hi)
  empty i hi := by
    rw [insert_vacated] at hi
    rw [insert_node? v, if_neg (ne_insert_of_mem_tail v node hi)]
    exact v.empty i (List.mem_of_mem_tail hi)
  nodup := by
    rw [insert_vacated]
    exact v.nodup.sublist (List.tail_sublist _)

theorem insert_added (v : g.Vacancies) (node : Node) :
    Added g node (g.insert node).1 (g.insert node).2 :=
  ⟨insert_fresh v node, insert_node? v node, insert_find? node, insert_edges node, v.insert node⟩

theorem addNode_runOn_of_taken (taken : g.isFree node.name = false) :
    (addNode node).runOn g = (.error (.duplicateName node.name), g) := by
  simp only [addNode, Edit.runOn_get_bind, taken, Bool.false_eq_true, ↓reduceIte]
  rfl

theorem addNode_runOn_of_free (free : g.isFree node.name) :
    (addNode node).runOn g = (.ok (g.insert node).1, (g.insert node).2) := by
  simp only [addNode, Edit.runOn_get_bind, free, ↓reduceIte]
  rfl

/-- A node whose name is free is added. -/
theorem addNode_runOn (v : g.Vacancies) (node : Node) (free : g.isFree node.name) :
    ∃ i g', (addNode node).runOn g = (.ok i, g') ∧ Added g node i g' :=
  ⟨(g.insert node).1, (g.insert node).2, addNode_runOn_of_free free, insert_added v node⟩

namespace Added

variable (a : Added g node i g')

include a

theorem self : g'.node? i = some node := by
  rw [a.node?, if_pos rfl]

theorem other (h : j ≠ i) : g'.node? j = g.node? j := by
  rw [a.node?, if_neg h]

theorem ne_of_node? {other : Node} (h : g.node? j = some other) : j ≠ i := by
  rintro rfl
  rw [a.fresh] at h
  simp at h

theorem of_node? {other : Node} (h : g.node? j = some other) : g'.node? j = some other := by
  rw [a.other (a.ne_of_node? h), h]

theorem isFree {name : String} (hne : name ≠ node.name) (h : g.isFree name) :
    g'.isFree name := by
  rw [Graph.isFree, a.find?, if_neg hne]
  exact h

theorem contains (h : g.contains j) : g'.contains j := by
  obtain ⟨other, hother⟩ := contains_iff.1 h
  exact contains_iff.2 ⟨other, a.of_node? hother⟩

theorem find_iff (h : g.WellFormed) (free : g.isFree node.name) (name : String) (j : NodeId) :
    g'.find? name = some j ↔ ∃ other, g'.node? j = some other ∧ other.name = name := by
  have hfree : g.find? node.name = none := Option.isNone_iff_eq_none.1 free
  rw [a.find?, a.node?]
  split_ifs with hn hj hj
  · simp [hn, hj]
  · constructor
    · rintro ⟨⟩
      exact absurd rfl hj
    · rintro hex
      rw [hn, ← h.find_iff node.name j, hfree] at hex
      simp at hex
  · subst hj
    rw [h.find_iff, a.fresh]
    constructor
    · rintro ⟨_, h', -⟩
      simp at h'
    · rintro ⟨node', h', rfl⟩
      simp only [Option.some.injEq] at h'
      exact absurd (congrArg Node.name h'.symm) hn
  · exact h.find_iff name j

theorem wellFormed (h : g.WellFormed) (free : g.isFree node.name) : g'.WellFormed where
  find_iff := a.find_iff h free
  source_live e he := a.contains (h.source_live e (a.edges ▸ he))
  target_live e he := a.contains (h.target_live e (a.edges ▸ he))
  vacated_lt := a.vacancies.lt
  vacated_empty := a.vacancies.empty
  vacated_nodup := a.vacancies.nodup

end Added

/-! ## Changing a node in place -/

theorem modifyNode_node? (g : Graph) (i j : NodeId) (change : Node → Node) :
    (g.modifyNode i change).node? j = if j = i then (g.node? j).map change else g.node? j := by
  simp only [modifyNode, node?, List.getElem?_modify]
  split_ifs with h1 h2 h2
  · rcases g.slots[j]? with _ | _ | _ <;> rfl
  · exact absurd h1.symm h2
  · exact absurd h2.symm h1
  · simp

theorem modifyNode_contains (g : Graph) (i j : NodeId) (change : Node → Node) :
    (g.modifyNode i change).contains j = g.contains j := by
  rw [contains, contains, modifyNode_node?]
  split_ifs
  · exact Option.isSome_map
  · rfl

theorem Vacancies.modifyNode (v : g.Vacancies) (i : NodeId) (change : Node → Node) :
    (g.modifyNode i change).Vacancies where
  lt j hj := by
    simpa [Graph.modifyNode] using v.lt j hj
  empty j hj := by
    rw [← contains_eq_false_iff, modifyNode_contains, contains_eq_false_iff]
    exact v.empty j hj
  nodup := v.nodup

theorem WellFormed.modifyNode (h : g.WellFormed) {i : NodeId} {change : Node → Node}
    (hname : ∀ node, (change node).name = node.name) : (g.modifyNode i change).WellFormed where
  find_iff name j := by
    rw [modifyNode_node?]
    change g.find? name = some j ↔ _
    rw [h.find_iff]
    split_ifs
    · rcases g.node? j with _ | node <;> simp [hname]
    · rfl
  source_live e he := by
    rw [modifyNode_contains]
    exact h.source_live e he
  target_live e he := by
    rw [modifyNode_contains]
    exact h.target_live e he
  vacated_lt := (h.vacancies.modifyNode i change).lt
  vacated_empty := (h.vacancies.modifyNode i change).empty
  vacated_nodup := h.vacated_nodup

/-! ## Joining nodes -/

theorem connect_runOn {source target : NodeId} {s t : Node} (hs : g.node? source = some s)
    (ht : g.node? target = some t) (hk : s.kind ≠ t.kind) (port : Port) :
    (connect source target port).runOn g = (.ok (), g.link source target port) := by
  simp only [connect, Edit.runOn_get_bind, hs, ht, hk, ↓reduceIte]
  rfl

theorem connect_runOn_of_same {source target : NodeId} {s t : Node}
    (hs : g.node? source = some s) (ht : g.node? target = some t) (hk : s.kind = t.kind)
    (port : Port) :
    (connect source target port).runOn g = (.error (.invalidEdge s.name t.name), g) := by
  simp only [connect, Edit.runOn_get_bind, hs, ht, hk, ↓reduceIte]
  rfl

theorem WellFormed.link (h : g.WellFormed) {source target : NodeId} (hs : g.contains source)
    (ht : g.contains target) (port : Port) : (g.link source target port).WellFormed where
  find_iff := h.find_iff
  source_live e he := by
    rcases List.mem_cons.1 he with rfl | he
    · exact hs
    · exact h.source_live e he
  target_live e he := by
    rcases List.mem_cons.1 he with rfl | he
    · exact ht
    · exact h.target_live e he
  vacated_lt := h.vacated_lt
  vacated_empty := h.vacated_empty
  vacated_nodup := h.vacated_nodup

/-! ## Moving consumers -/

/-- An edge that leaves one node, made to leave another. -/
def redirect (source target : NodeId) (e : Edge) : Edge :=
  if e.source = source then { e with source := target } else e

@[simp]
theorem redirect_target (source target : NodeId) (e : Edge) :
    (redirect source target e).target = e.target := by
  unfold redirect
  split_ifs <;> rfl

@[simp]
theorem redirect_port (source target : NodeId) (e : Edge) :
    (redirect source target e).port = e.port := by
  unfold redirect
  split_ifs <;> rfl

theorem port_comp_redirect (source target : NodeId) :
    Edge.port ∘ redirect source target = Edge.port :=
  funext (redirect_port source target)

/-- Edges enter the same node wherever they are made to come from. -/
theorem filter_target_redirect (edges : List Edge) (source target j : NodeId) :
    (edges.map (redirect source target)).filter (·.target = j) =
      (edges.filter (·.target = j)).map (redirect source target) := by
  rw [List.filter_map]
  congr 2
  funext e
  simp

theorem redirect_of_ne {source target : NodeId} {e : Edge} (h : e.source ≠ source) :
    redirect source target e = e := if_neg h

theorem edges_moveOutgoing (g : Graph) (source target : NodeId) :
    (g.moveOutgoing source target).edges.Perm (g.edges.map (redirect source target)) := by
  have hmoved : (g.outgoing source).map (fun e => { e with source := target }) =
      (g.edges.filter (·.source = source)).map (redirect source target) := by
    refine List.map_congr_left fun e he => ?_
    rw [redirect, if_pos (by simpa using (List.mem_filter.1 he).2)]
  have hrest : g.edges.filter (·.source ≠ source) =
      (g.edges.filter fun e => !decide (e.source = source)).map (redirect source target) := by
    simp only [ne_eq, decide_not]
    rw [List.map_congr_left (g := id), List.map_id]
    intro e he
    exact redirect_of_ne (by simpa using (List.mem_filter.1 he).2)
  unfold moveOutgoing
  simp only [hmoved, hrest]
  refine ((List.reverse_perm _).append_right _).trans ?_
  rw [← List.map_append]
  exact (List.filter_append_perm _ g.edges).map _

theorem rerouteConsumers_runOn {source target : NodeId} (hs : g.contains source)
    (ht : g.contains target) :
    (rerouteConsumers source target).runOn g = (.ok (), g.moveOutgoing source target) := by
  simp only [rerouteConsumers, Edit.runOn_get_bind, hs, ht]
  rfl

theorem WellFormed.moveOutgoing (h : g.WellFormed) {source target : NodeId}
    (ht : g.contains target) : (g.moveOutgoing source target).WellFormed where
  find_iff := h.find_iff
  source_live e he := by
    obtain ⟨e', he', rfl⟩ := List.mem_map.1 ((edges_moveOutgoing g source target).mem_iff.1 he)
    unfold redirect
    split_ifs
    · exact ht
    · exact h.source_live e' he'
  target_live e he := by
    obtain ⟨e', he', rfl⟩ := List.mem_map.1 ((edges_moveOutgoing g source target).mem_iff.1 he)
    rw [redirect_target]
    exact h.target_live e' he'
  vacated_lt := h.vacated_lt
  vacated_empty := h.vacated_empty
  vacated_nodup := h.vacated_nodup

end Graph

end ModelIR
