import ModelIR.Proofs.Splicing

/-!
# Graphs with a splice

Behind a splice the tensor leads to the new operation alone, and what the operation writes leads
where the tensor led (`consumers_data`, `consumers_out`). An old node has the inputs that it had, on
the same ports, those from the tensor excepted, which now come from the new one (`incoming_old`); so
a splice keeps a graph alternating and consistent.
-/

namespace ModelIR.Graph.Spliced

variable {g g' : Graph} {data j : NodeId} {stage : Stage} {n : Inserted} {node : Node}

theorem not_mem_ids (s : Spliced g data stage n g') (h : g.node? j = some node) : j ∉ n.ids := by
  intro hj
  rw [s.fresh j hj] at h
  simp at h

theorem node?_old (s : Spliced g data stage n g') (h : g.node? j = some node) :
    g'.node? j = some node := by
  rw [s.kept j (s.not_mem_ids h), h]

theorem kind?_old (s : Spliced g data stage n g') {k : NodeKind} (h : g.kind? j = some k) :
    g'.kind? j = some k := by
  obtain ⟨node, hnode, rfl⟩ := Option.map_eq_some_iff.1 h
  rw [kind?, s.node?_old hnode]
  rfl

theorem kind?_of_old (s : Spliced g data stage n g') (hj : j ∉ n.ids) : g'.kind? j = g.kind? j := by
  rw [kind?, kind?, s.kept j hj]

theorem kind?_op (s : Spliced g data stage n g') : g'.kind? n.op = some .op := by
  obtain ⟨name, h⟩ := s.op_eq
  rw [kind?, h]
  rfl

theorem kind?_const (s : Spliced g data stage n g') : g'.kind? n.const = some .op := by
  obtain ⟨name, h⟩ := s.const_eq
  rw [kind?, h]
  rfl

theorem kind?_operand (s : Spliced g data stage n g') : g'.kind? n.operand = some .data := by
  obtain ⟨name, h⟩ := s.operand_eq
  rw [kind?, h]
  rfl

theorem kind?_out (s : Spliced g data stage n g') : g'.kind? n.out = some .data := by
  obtain ⟨name, h⟩ := s.out_eq
  rw [kind?, h]
  rfl

theorem isOp_eq_false (s : Spliced g data stage n g') {type : String} (hstage : stage.type ≠ type)
    (hconst : OpType.const ≠ type) (hj : j ∈ n.ids) (hnode : g'.node? j = some node) :
    node.isOp type = false := by
  rcases Inserted.mem_ids.1 hj with rfl | rfl | rfl | rfl
  · obtain ⟨name, h⟩ := s.op_eq
    rw [h, Option.some.injEq] at hnode
    simp [← hnode, Node.isOp, Node.ofOp, hstage]
  · obtain ⟨name, h⟩ := s.const_eq
    rw [h, Option.some.injEq] at hnode
    simp [← hnode, Node.isOp, constOp, Node.ofOp, hconst]
  · obtain ⟨name, h⟩ := s.operand_eq
    rw [h, Option.some.injEq] at hnode
    rw [← hnode]
    rfl
  · obtain ⟨name, h⟩ := s.out_eq
    rw [h, Option.some.injEq] at hnode
    rw [← hnode]
    rfl

/-- The four new nodes differ. -/
theorem ids_ne (s : Spliced g data stage n g') :
    n.op ≠ n.const ∧ n.op ≠ n.operand ∧ n.op ≠ n.out ∧ n.const ≠ n.operand ∧ n.const ≠ n.out ∧
      n.operand ≠ n.out := by
  have h := s.nodup
  simp only [Inserted.ids, List.nodup_cons, List.mem_cons, List.not_mem_nil, or_false,
    not_or] at h
  tauto

/-- An old node is none of the new ones. -/
theorem old_ne (s : Spliced g data stage n g') (h : g.node? j = some node) :
    j ≠ n.op ∧ j ≠ n.const ∧ j ≠ n.operand ∧ j ≠ n.out := by
  have hids := s.not_mem_ids h
  rwa [Inserted.mem_ids, not_or, not_or, not_or] at hids

theorem nodeIds_perm (s : Spliced g data stage n g') : g'.nodeIds.Perm (n.ids ++ g.nodeIds) := by
  refine nodeIds_perm_of_kept s.fresh s.nodup (fun j hj => ?_) s.kept
  rcases Inserted.mem_ids.1 hj with rfl | rfl | rfl | rfl
  exacts [contains_of_kind? s.kind?_op, contains_of_kind? s.kind?_const,
    contains_of_kind? s.kind?_operand, contains_of_kind? s.kind?_out]

/-! ## What leaves a node -/

theorem outgoing_perm (s : Spliced g data stage n g') (j : NodeId) :
    (g'.outgoing j).Perm ((n.edges data).filter (·.source = j) ++
      (g.edges.filter fun e => (redirect data n.out e).source = j).map (redirect data n.out)) := by
  have e := s.edges.filter (fun e => decide (e.source = j))
  rw [List.filter_append, List.filter_map] at e
  exact e

/-- No edge is made to leave a new node but the one that is written. -/
theorem redirect_source_ne (h : g.WellFormed) (hj : g.node? j = none) (hne : j ≠ n.out) :
    (g.edges.filter fun e => (redirect data n.out e).source = j) = [] := by
  refine List.filter_eq_nil_iff.2 fun e he => ?_
  rw [decide_eq_true_eq]
  unfold redirect
  split_ifs
  · exact hne.symm
  · exact h.not_source hj he

theorem outgoing_data (s : Spliced g data stage n g') (htensor : g.node? data = some node) :
    g'.outgoing data = [⟨data, n.op, 0⟩] := by
  obtain ⟨hop, hconst, hoperand, hout⟩ := s.old_ne htensor
  have hnew : (n.edges data).filter (·.source = data) = [⟨data, n.op, 0⟩] := by
    simp [Inserted.edges, Ne.symm hop, Ne.symm hconst, Ne.symm hoperand]
  have hold : (g.edges.filter fun e => (redirect data n.out e).source = data) = [] := by
    refine List.filter_eq_nil_iff.2 fun e _ => ?_
    rw [decide_eq_true_eq]
    unfold redirect
    split_ifs with he
    · exact Ne.symm hout
    · exact he
  have hperm := s.outgoing_perm data
  rw [hnew, hold] at hperm
  exact List.perm_singleton.1 hperm

theorem outgoing_op (s : Spliced g data stage n g') (h : g.WellFormed)
    (htensor : g.node? data = some node) : g'.outgoing n.op = [⟨n.op, n.out, 0⟩] := by
  obtain ⟨hconst, hoperand, hout, -⟩ := s.ids_ne
  have hnew : (n.edges data).filter (·.source = n.op) = [⟨n.op, n.out, 0⟩] := by
    simp [Inserted.edges, (s.old_ne htensor).1, Ne.symm hconst, Ne.symm hoperand]
  have hperm := s.outgoing_perm n.op
  rw [hnew, redirect_source_ne h (s.fresh _ (by simp [Inserted.ids])) hout] at hperm
  exact List.perm_singleton.1 hperm

theorem outgoing_old (s : Spliced g data stage n g') (hj : g.node? j = some node)
    (hne : j ≠ data) : (g'.outgoing j).Perm (g.outgoing j) := by
  obtain ⟨hop, hconst, hoperand, hout⟩ := s.old_ne hj
  have hnew : (n.edges data).filter (·.source = j) = [] := by
    simp [Inserted.edges, Ne.symm hop, Ne.symm hconst, Ne.symm hoperand, Ne.symm hne]
  have hsource : ∀ e : Edge, (redirect data n.out e).source = j ↔ e.source = j := by
    intro e
    unfold redirect
    split_ifs with he
    · exact iff_of_false (Ne.symm hout) (by rw [he]; exact Ne.symm hne)
    · rfl
  have hperm := s.outgoing_perm j
  rw [hnew, List.nil_append] at hperm
  refine hperm.trans (.of_eq ?_)
  simp only [hsource]
  rw [List.map_congr_left (g := id), List.map_id]
  · rfl
  · intro e he
    have := (List.mem_filter.1 he).2
    rw [decide_eq_true_eq] at this
    exact redirect_of_ne (by rw [this]; exact hne)

/-- What left the tensor leaves the new tensor, to the same nodes and on the same ports. -/
theorem outgoing_out (s : Spliced g data stage n g') (h : g.WellFormed)
    (htensor : g.node? data = some node) :
    ((g'.outgoing n.out).map landing).Perm ((g.outgoing data).map landing) := by
  obtain ⟨-, -, hop, -, hconst, hoperand⟩ := s.ids_ne
  obtain ⟨-, -, -, hout⟩ := s.old_ne htensor
  have hnew : (n.edges data).filter (·.source = n.out) = [] := by
    simp [Inserted.edges, hop, hconst, hoperand, hout]
  have hsource : ∀ e ∈ g.edges, (redirect data n.out e).source = n.out ↔ e.source = data := by
    intro e he
    unfold redirect
    split_ifs with heq
    · exact iff_of_true rfl heq
    · exact iff_of_false (h.not_source (s.fresh _ (by simp [Inserted.ids])) he) heq
  have hperm := (s.outgoing_perm n.out).map landing
  rw [hnew, List.nil_append, List.map_map] at hperm
  refine hperm.trans (.of_eq ?_)
  rw [List.filter_congr fun e he => decide_eq_decide.2 (hsource e he)]
  refine List.map_congr_left fun e _ => ?_
  simp [landing]

theorem consumers_data (s : Spliced g data stage n g') (htensor : g.node? data = some node) :
    g'.consumers data = [(n.op, 0)] :=
  consumers_eq_singleton (s.outgoing_data htensor)

theorem consumers_out (s : Spliced g data stage n g') (h : g.WellFormed)
    (htensor : g.node? data = some node) : g'.consumers n.out = g.consumers data :=
  consumers_eq_of_perm (s.outgoing_out h htensor)

theorem consumers_old (s : Spliced g data stage n g') (hj : g.node? j = some node)
    (hne : j ≠ data) : g'.consumers j = g.consumers j :=
  consumers_eq_of_perm ((s.outgoing_old hj hne).map landing)

/-! ## What enters a node -/

theorem incoming_perm (s : Spliced g data stage n g') (j : NodeId) :
    (g'.incoming j).Perm ((n.edges data).filter (·.target = j) ++
      (g.incoming j).map (redirect data n.out)) := by
  have e := s.edges.filter (fun e => decide (e.target = j))
  rwa [List.filter_append, filter_target_redirect] at e

/-- An old node has the inputs that it had, those from the tensor excepted. -/
theorem incoming_old (s : Spliced g data stage n g') (hj : g.node? j = some node) :
    (g'.incoming j).Perm ((g.incoming j).map (redirect data n.out)) := by
  obtain ⟨hop, hconst, hoperand, hout⟩ := s.old_ne hj
  have hnew : (n.edges data).filter (·.target = j) = [] := by
    simp [Inserted.edges, Ne.symm hop, Ne.symm hoperand, Ne.symm hout]
  have hperm := s.incoming_perm j
  rwa [hnew, List.nil_append] at hperm

theorem incoming_new (s : Spliced g data stage n g') (h : g.WellFormed) (hj : j ∈ n.ids) :
    (g'.incoming j).Perm ((n.edges data).filter (·.target = j)) := by
  have hperm := s.incoming_perm j
  rwa [h.incoming_eq_nil (s.fresh j hj), List.map_nil, List.append_nil] at hperm

theorem incoming_op (s : Spliced g data stage n g') (h : g.WellFormed) :
    (g'.incoming n.op).Perm [⟨data, n.op, 0⟩, ⟨n.operand, n.op, 1⟩] := by
  obtain ⟨-, hoperand, hout, -⟩ := s.ids_ne
  refine ((s.incoming_new h (by simp [Inserted.ids])).trans (.of_eq ?_)).trans (.swap _ _ _)
  simp [Inserted.edges, Ne.symm hoperand, Ne.symm hout]

theorem incoming_const (s : Spliced g data stage n g') (h : g.WellFormed) :
    g'.incoming n.const = [] := by
  obtain ⟨hop, -, -, hoperand, hout, -⟩ := s.ids_ne
  refine List.perm_nil.1 ((s.incoming_new h (by simp [Inserted.ids])).trans (.of_eq ?_))
  simp [Inserted.edges, hop, Ne.symm hoperand, Ne.symm hout]

theorem incoming_operand (s : Spliced g data stage n g') (h : g.WellFormed) :
    g'.incoming n.operand = [⟨n.const, n.operand, 0⟩] := by
  obtain ⟨-, hop, -, -, -, hout⟩ := s.ids_ne
  refine List.perm_singleton.1 ((s.incoming_new h (by simp [Inserted.ids])).trans (.of_eq ?_))
  simp [Inserted.edges, hop, Ne.symm hout]

theorem incoming_out (s : Spliced g data stage n g') (h : g.WellFormed) :
    g'.incoming n.out = [⟨n.op, n.out, 0⟩] := by
  obtain ⟨-, -, hop, -, -, hoperand⟩ := s.ids_ne
  refine List.perm_singleton.1 ((s.incoming_new h (by simp [Inserted.ids])).trans (.of_eq ?_))
  simp [Inserted.edges, hop, hoperand]

/-! ## What a splice keeps -/

theorem alternating (s : Spliced g data stage n g') (hk : g.kind? data = some .data)
    (alt : g.Alternating) : g'.Alternating := by
  intro e he
  rcases List.mem_append.1 (s.edges.mem_iff.1 he) with hnew | hold
  · simp only [Inserted.edges, List.mem_cons, List.not_mem_nil, or_false] at hnew
    rcases hnew with rfl | rfl | rfl | rfl
    · exact .inl ⟨s.kind?_op, s.kind?_out⟩
    · exact .inr ⟨s.kind?_operand, s.kind?_op⟩
    · exact .inr ⟨s.kind?_old hk, s.kind?_op⟩
    · exact .inl ⟨s.kind?_const, s.kind?_operand⟩
  · obtain ⟨e, hmem, rfl⟩ := List.mem_map.1 hold
    rw [redirect_target]
    have halt := alt e hmem
    unfold redirect
    split_ifs with hsource
    · rw [hsource, hk] at halt
      simp only [Option.some.injEq, reduceCtorEq, false_and, true_and, false_or] at halt
      exact .inr ⟨s.kind?_out, s.kind?_old halt⟩
    · exact halt.imp (And.imp s.kind?_old s.kind?_old) (And.imp s.kind?_old s.kind?_old)

theorem consistent (s : Spliced g data stage n g') (h : g.WellFormed) (c : g.Consistent) :
    g'.Consistent where
  producers j hj := by
    by_cases hids : j ∈ n.ids
    · rcases Inserted.mem_ids.1 hids with rfl | rfl | rfl | rfl
      · simp [s.kind?_op] at hj
      · simp [s.kind?_const] at hj
      · simp [s.incoming_operand h]
      · simp [s.incoming_out h]
    · rw [s.kind?_of_old hids] at hj
      obtain ⟨node, hnode⟩ := contains_iff.1 (contains_of_kind? hj)
      rw [(s.incoming_old hnode).length_eq, List.length_map]
      exact c.producers j hj
  ports j hj := by
    by_cases hids : j ∈ n.ids
    · rcases Inserted.mem_ids.1 hids with rfl | rfl | rfl | rfl
      · rw [((s.incoming_op h).map Edge.port).nodup_iff]
        simp
      · simp [s.incoming_const h]
      · simp [s.kind?_operand] at hj
      · simp [s.kind?_out] at hj
    · rw [s.kind?_of_old hids] at hj
      obtain ⟨node, hnode⟩ := contains_iff.1 (contains_of_kind? hj)
      rw [((s.incoming_old hnode).map Edge.port).nodup_iff, List.map_map, port_comp_redirect]
      exact c.ports j hj

end ModelIR.Graph.Spliced
