import ModelIR.Proofs.Rerouting
import ModelIR.Proofs.SpliceEffects

/-!
# Splices that are refused

A splice looks for the first node that its input leads to, and takes it for the tensor to splice
behind. Without such a node it is refused before anything is changed. But it does not look at what
the input is: behind a tensor that is read it takes the reader, an operation, for the tensor. Then
the new nodes are in the graph and the reader's outputs are moved over when the first edge is
refused, and they stay so (`exists_splice_torn`).
-/

namespace ModelIR

namespace Graph

variable {g g' : Graph} {input i reader : NodeId} {node r : Node} {stage : Stage} {n : Inserted}
  {shape : Option (List Nat)} {a : Adjustment}

/-! ## Inputs without outputs -/

theorem splice_runOn_of_dead (ha : a.isNeutral = false) (hdead : g.node? input = none) :
    (a.splice input).runOn g = (.error (.malformedGraph (.notInGraph input)), g) := by
  obtain ⟨suffix, hsplice⟩ := Adjustment.splice_eq_insertAfter ha input
  rw [hsplice]
  refine Edit.runOn_map_error ?_ some
  rw [Splice.insertAfter, Edit.runOn_pass_get_bind, hdead]
  rfl

theorem splice_runOn_of_unread (ha : a.isNeutral = false) (hnode : g.node? input = some node)
    (hout : g.outgoing input = []) :
    (a.splice input).runOn g = (.error (.malformedGraph (.noOutput node.name)), g) := by
  obtain ⟨suffix, hsplice⟩ := Adjustment.splice_eq_insertAfter ha input
  rw [hsplice]
  refine Edit.runOn_map_error ?_ some
  rw [Splice.insertAfter, Edit.runOn_pass_get_bind, hnode]
  simp only [outNodes_eq_nil_iff.2 hout]
  rfl

/-! ## Nodes of a splice that are not joined -/

namespace NodesAdded

variable (s : NodesAdded g stage shape n g')
include s

theorem nodeCount : g'.nodeCount = g.nodeCount + 4 := by
  have hperm := nodeIds_perm_of_kept s.fresh s.nodup (fun _ => s.contains_of_mem_ids) s.kept
  rw [Graph.nodeCount, hperm.length_eq, List.length_append, Nat.add_comm]
  rfl

theorem kind?_of_contains (hi : g.contains i) : g'.kind? i = g.kind? i := by
  obtain ⟨node, hnode⟩ := contains_iff.1 hi
  rw [kind?, s.of_node? hnode, kind?, hnode]

theorem kind?_out : g'.kind? n.out = some .data := by
  obtain ⟨name, hout⟩ := s.out_eq
  rw [kind?, hout]
  rfl

theorem alternating (h : g.WellFormed) (alt : g.Alternating) : g'.Alternating := by
  intro e he
  rw [s.edges, List.mem_cons] at he
  rcases he with rfl | he
  · obtain ⟨constName, hconst⟩ := s.const_eq
    obtain ⟨operandName, hoperand⟩ := s.operand_eq
    refine .inl ⟨?_, ?_⟩
    · rw [kind?, hconst]
      rfl
    · rw [kind?, hoperand]
      rfl
  · rw [s.kind?_of_contains (h.source_live e he), s.kind?_of_contains (h.target_live e he)]
    exact alt e he

theorem outgoing_of_node? (hi : g.node? i = some node) : g'.outgoing i = g.outgoing i := by
  have hne : n.const ≠ i := by
    rintro rfl
    exact s.not_mem_ids hi (Inserted.mem_ids.2 (by simp))
  rw [outgoing, s.edges, List.filter_cons_of_neg (by simpa using hne), outgoing]

theorem outgoing_out (h : g.WellFormed) : g'.outgoing n.out = [] := by
  have hnodup := s.nodup
  simp only [Inserted.ids, List.nodup_cons, List.mem_cons, List.not_mem_nil, not_or] at hnodup
  have hfresh : g.node? n.out = none := s.fresh _ (Inserted.mem_ids.2 (by simp))
  rw [outgoing, s.edges, List.filter_cons_of_neg (by simpa using hnodup.2.1.2.1),
    List.filter_eq_nil_iff]
  intro e he
  rw [decide_eq_true_eq]
  exact h.not_source hfresh he

end NodesAdded

/-! ## Tensors for inputs -/

/-- `g'` is what a splice leaves that took an operation for a tensor. Its nodes are in the graph,
and what the operation wrote is led to by the new tensor; so the edges no longer alternate unless
the operation wrote nothing. -/
structure Torn (g : Graph) (reader : NodeId) (stage : Stage) (n : Inserted) (opName : String)
    (g' : Graph) : Prop where
  added : ∃ g₁, NodesAdded g stage ((g.node? reader).bind Node.shape) n g₁ ∧
    g' = g₁.moveOutgoing reader n.out
  op_eq : g'.node? n.op = some (.ofOp opName stage.type)
  nodeCount : g'.nodeCount = g.nodeCount + 4
  edges : g'.edges.Perm (⟨n.const, n.operand, 0⟩ :: g.edges.map (redirect reader n.out))
  outgoing_reader : g'.outgoing reader = []
  consumers_out : g'.consumers n.out = g.consumers reader
  alternating_iff : g'.Alternating ↔ g.outgoing reader = []

theorem NodesAdded.torn (s : NodesAdded g stage ((g.node? reader).bind Node.shape) n g')
    (h : g.WellFormed) (alt : g.Alternating) (hr : g.node? reader = some r) (hk : r.kind = .op)
    {opName : String} (hop : g'.node? n.op = some (.ofOp opName stage.type)) :
    Torn g reader stage n opName (g'.moveOutgoing reader n.out) where
  added := ⟨g', s, rfl⟩
  op_eq := hop
  nodeCount := s.nodeCount
  edges := s.edges_moveOutgoing hr
  outgoing_reader := by
    have hne : reader ≠ n.out := by
      rintro rfl
      exact s.not_mem_ids hr (Inserted.mem_ids.2 (by simp))
    rw [outgoing_moveOutgoing, if_neg hne, if_pos rfl, List.append_nil]
  consumers_out := by
    refine consumers_eq_of_perm ?_
    rw [outgoing_moveOutgoing, if_pos rfl, s.outgoing_out h, s.outgoing_of_node? hr, ite_self,
      List.append_nil, List.map_reverse, map_landing_moved]
    exact List.reverse_perm _
  alternating_iff := by
    have hreader : g'.kind? reader = some .op := by rw [kind?, s.of_node? hr, Option.map_some, hk]
    rw [alternating_moveOutgoing_iff (s.alternating h alt), s.outgoing_of_node? hr, hreader,
      s.kind?_out]
    simp

/-- Behind a tensor that is read, the first reader is taken for the tensor. -/
theorem exists_splice_torn (h : g.WellFormed) (alt : g.Alternating) (ha : a.isNeutral = false)
    (hk : g.kind? input = some .data) (hout : g.outgoing input ≠ []) :
    ∃ reader r n opName g', g.FirstOutput input reader ∧ g.node? reader = some r ∧ r.kind = .op ∧
      (a.splice input).runOn g = (.error (.graph (.invalidEdge r.name opName)), g') ∧
      Torn g reader a.stage n opName g' := by
  obtain ⟨suffix, hsplice⟩ := Adjustment.splice_eq_insertAfter ha input
  obtain ⟨node, hnode, -⟩ := Option.map_eq_some_iff.1 hk
  obtain ⟨reader, hfirst⟩ := exists_firstOutput (mt outNodes_eq_nil_iff.1 hout)
  have ⟨port, he, _⟩ := hfirst
  obtain ⟨r, hr, hrk⟩ := Option.map_eq_some_iff.1 (alt.kind?_reader he hk)
  obtain ⟨n, g₁, s, run⟩ :=
    exists_insertAfter_runOn_eq h hnode (head?_outNodes_iff.2 hfirst) hr a.stage.type suffix
      a.stage.operand
  obtain ⟨opName, hop⟩ := s.op_eq
  have hr₁ := s.of_node? hr
  have hout₁ : g₁.contains n.out := s.contains_of_mem_ids (Inserted.mem_ids.2 (by simp))
  refine ⟨reader, r, n, opName, g₁.moveOutgoing reader n.out, hfirst, hr, hrk, ?_,
    s.torn h alt hr hrk hop⟩
  rw [hsplice]
  refine Edit.runOn_map_error (run.trans ?_) some
  refine (Edit.runOn_bind_ok (Edit.runOn_lift_ok
    (rerouteConsumers_runOn (g := g₁) (contains_iff.2 ⟨r, hr₁⟩) hout₁)) _).trans ?_
  exact Edit.runOn_bind_error (Edit.runOn_lift_error (connect_runOn_of_same
    (g := g₁.moveOutgoing reader n.out) hr₁ hop hrk 0)) _

/-- What a splice does that is not behind an operation which writes a tensor. It is refused as a
malformed graph, with the graph left as it was, exactly if nothing is in the slot or the node there
leads to nothing. What remains are tensors that are read: then the error is that of an edge between
two operations, and the graph has been changed. The index of names has to be that of the nodes
(`WellFormed`), so this is not about graphs with a node that was renamed in place. -/
theorem splice_refused_iff (h : g.WellFormed) (alt : g.Alternating) (ha : a.isNeutral = false) :
    (g.node? input = none →
      (a.splice input).runOn g = (.error (.malformedGraph (.notInGraph input)), g)) ∧
    (∀ node, g.node? input = some node → g.outgoing input = [] →
      (a.splice input).runOn g = (.error (.malformedGraph (.noOutput node.name)), g)) ∧
    (g.kind? input = some .data → g.outgoing input ≠ [] →
      ∃ reader r n opName g', g.FirstOutput input reader ∧ g.node? reader = some r ∧
        r.kind = .op ∧
        (a.splice input).runOn g = (.error (.graph (.invalidEdge r.name opName)), g') ∧
        Torn g reader a.stage n opName g') ∧
    ((∃ defect, (a.splice input).runOn g = (.error (.malformedGraph defect), g)) ↔
      g.contains input = false ∨ g.outgoing input = []) := by
  refine ⟨splice_runOn_of_dead ha, fun node => splice_runOn_of_unread ha,
    exists_splice_torn h alt ha, ?_, ?_⟩
  · rintro ⟨defect, hrun⟩
    by_contra! hread
    obtain ⟨hlive, hout⟩ := hread
    obtain ⟨node, hnode⟩ := contains_iff.1 (by simpa using hlive)
    have hkind : g.kind? input = some node.kind := by rw [kind?, hnode, Option.map_some]
    rcases hk : node.kind with _ | _ <;> rw [hk] at hkind
    · obtain ⟨d, hfirst⟩ := exists_firstOutput (mt outNodes_eq_nil_iff.1 hout)
      have hsite : g.Spliceable input d := ⟨h, alt, hkind, hfirst⟩
      obtain ⟨n, g', run, -⟩ := hsite.splice_runOn ha
      rw [run] at hrun
      simp at hrun
    · obtain ⟨reader, r, n, opName, g', -, -, -, run, -⟩ := exists_splice_torn h alt ha hkind hout
      rw [run] at hrun
      simp at hrun
  · rintro (hdead | hout)
    · exact ⟨_, splice_runOn_of_dead ha (contains_eq_false_iff.1 hdead)⟩
    · rcases hnode : g.node? input with _ | node
      · exact ⟨_, splice_runOn_of_dead ha hnode⟩
      · exact ⟨_, splice_runOn_of_unread ha hnode hout⟩

/-- A tensor, an operation that reads it, and what the operation writes. -/
def readTensor : Graph where
  slots := [some (.ofData "d"), some (.ofOp "f" "Relu"), some (.ofData "e")]
  edges := [⟨1, 2, 0⟩, ⟨0, 1, 0⟩]
  names := [("e", 2), ("f", 1), ("d", 0)]

/-- Behind the tensor a scale is not refused as a malformed graph, and four nodes are left. Behind
the other tensor, which nothing reads, it is refused. -/
theorem readTensor_torn : readTensor.validate = .ok () ∧
    (∃ opName g',
      (Splice.applyScale 0 [2.0]).runOn readTensor =
        (.error (.graph (.invalidEdge "f" opName)), g') ∧
      g'.nodeCount = readTensor.nodeCount + 4 ∧ g'.outgoing 1 = [] ∧ ¬ g'.Alternating) ∧
    (Splice.applyScale 2 [2.0]).runOn readTensor =
      (.error (.malformedGraph (.noOutput "e")), readTensor) := by
  have h : readTensor.WellFormed :=
    wellFormed_of_names (by decide) (by decide) (by decide) (by decide) rfl
  have alt : readTensor.Alternating := by unfold Alternating; decide
  have ha : (Adjustment.scale [2.0]).isNeutral = false := by decide
  have hkind : readTensor.kind? 0 = some .data := rfl
  have hlive : readTensor.node? 2 = some (.ofData "e") := rfl
  obtain ⟨-, -, htorn, -⟩ := splice_refused_iff h alt ha
  obtain ⟨-, hunread, -⟩ := splice_refused_iff h alt ha
  obtain ⟨reader, r, n, opName, g', hfirst, hr, -, run, torn⟩ := htorn hkind (by decide)
  obtain ⟨port, he, -⟩ := hfirst
  obtain ⟨rfl, -⟩ : reader = 1 ∧ port = 0 := by simpa [readTensor] using he
  obtain rfl := Option.some.inj hr
  refine ⟨by decide +kernel, ⟨opName, g', run, torn.nodeCount, torn.outgoing_reader, ?_⟩,
    hunread _ hlive (by decide)⟩
  rw [torn.alternating_iff]
  decide

end Graph

end ModelIR
