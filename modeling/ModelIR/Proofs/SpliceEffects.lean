import ModelIR.Proofs.Chains

/-!
# Splices behind any operation

Behind an operation that writes a tensor a splice succeeds, whatever the names in the graph are, and
what it does is known in full (`SpliceEffect`). It leaves the operation as it was, with the same
tensor first (`Spliceable.of_spliced`), so the next splice behind the operation succeeds as well.
However many there are, they stand in a chain, the last one first (`Spliceable.run_splices`).
-/

namespace ModelIR

namespace Graph

variable {g₀ g g' : Graph} {input d : NodeId} {stage : Stage} {n : Inserted} {a : Adjustment}

/-! ## Where a splice succeeds -/

/-- An operation, and the tensor that it writes first, in a graph in which operations and tensors
alternate. -/
structure Spliceable (g : Graph) (input d : NodeId) : Prop where
  wellFormed : g.WellFormed
  alternating : g.Alternating
  op : g.kind? input = some .op
  first : g.FirstOutput input d

namespace Spliceable

theorem kind?_first (h : g.Spliceable input d) : g.kind? d = some .data := by
  obtain ⟨port, he, -⟩ := h.first
  exact h.alternating.kind?_target he h.op

theorem splice_runOn (h : g.Spliceable input d) (ha : a.isNeutral = false) :
    ∃ n g', (a.splice input).runOn g = (.ok (some n.op), g') ∧ Spliced g d a.stage n g' := by
  obtain ⟨suffix, hsplice⟩ := Adjustment.splice_eq_insertAfter ha input
  obtain ⟨node, hnode, -⟩ := Option.map_eq_some_iff.1 h.op
  obtain ⟨tensor, htensor, hk⟩ := Option.map_eq_some_iff.1 h.kind?_first
  obtain ⟨n, g', run, s⟩ := insertAfter_runOn h.wellFormed hnode (head?_outNodes_iff.2 h.first)
    htensor hk a.stage.type suffix a.stage.operand
  rw [hsplice]
  exact ⟨n, g', Edit.runOn_map_ok run some, s⟩

/-- Behind a splice there is room for another one. -/
theorem of_spliced (h : g.Spliceable input d) (s : Spliced g d stage n g') :
    g'.Spliceable input d where
  wellFormed := s.wellFormed
  alternating := s.alternating h.kind?_first h.alternating
  op := s.kind?_old h.op
  first := by
    obtain ⟨node, hnode, hk⟩ := Option.map_eq_some_iff.1 h.op
    have hne : input ≠ d := by
      rintro rfl
      have := h.op.symm.trans h.kind?_first
      simp at this
    rw [← head?_outNodes_iff, outNodes_eq_of_consumers (s.consumers_old hnode hne),
      head?_outNodes_iff]
    exact h.first

end Spliceable

/-! ## What a splice does -/

/-- All that a splice behind a tensor does. The graph has four nodes and four edges more. The new
operation reads the tensor and the constant and writes a tensor of the same shape, which takes over
all that read the tensor before; all else is as it was. -/
structure SpliceEffect (g : Graph) (data : NodeId) (stage : Stage) (n : Inserted) (g' : Graph) :
    Prop extends Spliced g data stage n g' where
  nodeCount : g'.nodeCount = g.nodeCount + 4
  edgeCount : g'.edgeCount = g.edgeCount + 4
  op_inputs : (g'.incoming n.op).Perm [⟨data, n.op, 0⟩, ⟨n.operand, n.op, 1⟩]
  op_output : g'.outgoing n.op = [⟨n.op, n.out, 0⟩]
  operand_input : g'.incoming n.operand = [⟨n.const, n.operand, 0⟩]
  consumers_data : g'.consumers data = [(n.op, 0)]
  consumers_out : g'.consumers n.out = g.consumers data
  consumers_other : ∀ i, g.contains i → i ≠ data → g'.consumers i = g.consumers i
  alternating : g'.Alternating
  valid : g.validate = .ok () → g'.validate = .ok ()

theorem Spliceable.effect (h : g.Spliceable input d) (s : Spliced g d stage n g') :
    SpliceEffect g d stage n g' := by
  obtain ⟨tensor, htensor, -⟩ := Option.map_eq_some_iff.1 h.kind?_first
  exact {
    toSpliced := s
    nodeCount := by
      rw [nodeCount, s.nodeIds_perm.length_eq, List.length_append, Nat.add_comm]
      rfl
    edgeCount := by
      rw [edgeCount, s.edges.length_eq, List.length_append, List.length_map, Nat.add_comm]
      rfl
    op_inputs := s.incoming_op h.wellFormed
    op_output := s.outgoing_op h.wellFormed htensor
    operand_input := s.incoming_operand h.wellFormed
    consumers_data := s.consumers_data htensor
    consumers_out := s.consumers_out h.wellFormed htensor
    consumers_other := by
      intro i hi hne
      obtain ⟨node, hnode⟩ := contains_iff.1 hi
      exact s.consumers_old hnode hne
    alternating := s.alternating h.kind?_first h.alternating
    valid := by
      rw [validate_eq_ok_iff, validate_eq_ok_iff]
      exact s.consistent h.wellFormed }

/-! ## Any number of splices -/

/-- `g` is `g₀` with stages behind the tensor that an operation writes first. -/
structure Stacked (g₀ : Graph) (input d : NodeId) (stages : List Stage) (g : Graph) : Prop extends
    Spliceable g input d where
  kept : ∀ i node, g₀.node? i = some node → g.node? i = some node
  chain : ∃ last, Chain g₀ g d stages last ∧ g.consumers last = g₀.consumers d
  valid : g₀.validate = .ok () → g.validate = .ok ()

theorem Spliceable.stacked (h : g.Spliceable input d) : Stacked g input d [] g where
  toSpliceable := h
  kept _ _ := id
  chain := ⟨d, rfl, rfl⟩
  valid := id

theorem Stacked.splice_runOn {stages : List Stage} (h₀ : g₀.Spliceable input d)
    (h : Stacked g₀ input d stages g) (ha : a.isNeutral = false) :
    ∃ op g', (a.splice input).runOn g = (.ok (some op), g') ∧
      Stacked g₀ input d (a.stage :: stages) g' := by
  obtain ⟨n, g', run, s⟩ := h.toSpliceable.splice_runOn ha
  obtain ⟨tensor, htensor, -⟩ := Option.map_eq_some_iff.1 h₀.kind?_first
  refine ⟨n.op, g', run, h.toSpliceable.of_spliced s,
    fun i node hi => s.node?_old (h.kept i node hi), ?_, (h.toSpliceable.effect s).valid ∘ h.valid⟩
  obtain ⟨last, hchain, hlast⟩ := h.chain
  obtain ⟨last', hchain', hlast'⟩ := hchain.spliced_self s h.wellFormed h.kept htensor
  exact ⟨last', hchain', hlast'.trans hlast⟩

theorem Stacked.run_splices (h₀ : g₀.Spliceable input d) :
    ∀ (adjustments : List Adjustment) {stages : List Stage} {g : Graph},
      Stacked g₀ input d stages g →
      ∃ ops g', (adjustments.mapM (Adjustment.splice input)).runOn g = (.ok ops, g') ∧
        Stacked g₀ input d ((Adjustment.stages adjustments).reverse ++ stages) g'
  | [], _, g, h => ⟨[], g, rfl, h⟩
  | a :: adjustments, stages, g, h => by
    rcases ha : a.isNeutral with _ | _
    · obtain ⟨op, g₁, run₁, h₁⟩ := h.splice_runOn h₀ ha
      obtain ⟨ops, g', run, h'⟩ := run_splices h₀ adjustments h₁
      refine ⟨some op :: ops, g', ?_, ?_⟩
      · rw [List.mapM_cons, Edit.runOn_bind_ok run₁, Edit.runOn_bind_ok run, Edit.runOn_pure]
      · simpa [Adjustment.stages, ha] using h'
    · obtain ⟨ops, g', run, h'⟩ := run_splices h₀ adjustments h
      refine ⟨none :: ops, g', ?_, ?_⟩
      · rw [List.mapM_cons, Adjustment.splice_of_isNeutral ha, pure_bind, Edit.runOn_bind_ok run,
          Edit.runOn_pure]
      · simpa [Adjustment.stages, ha] using h'

/-- Adjustments of one operation make a chain of stages, the last one first, and those that change
nothing are left out. What read the tensor before reads the end of the chain. -/
theorem Spliceable.run_splices (h : g.Spliceable input d) (adjustments : List Adjustment) :
    ∃ ops g', (adjustments.mapM (Adjustment.splice input)).runOn g = (.ok ops, g') ∧
      Stacked g input d (Adjustment.stages adjustments).reverse g' := by
  simpa using Stacked.run_splices h adjustments h.stacked

/-- What a scale or a mean does behind an operation that writes a tensor. The splice gives its new
operation and has all its effects on the tensor that the operation writes first; a second one
succeeds in the same way, and stands between the tensor and the first. The index of names has to be
that of the nodes (`WellFormed`), so this is not about graphs with a node that was renamed in place.
-/
theorem splice_effects (h : g.WellFormed) (alt : g.Alternating) (hop : g.kind? input = some .op)
    (hout : g.outNodes input ≠ []) :
    ∃ d, g.FirstOutput input d ∧ g.kind? d = some .data ∧
      ∀ a : Adjustment, a.isNeutral = false →
        ∃ n g', (a.splice input).runOn g = (.ok (some n.op), g') ∧
          SpliceEffect g d a.stage n g' ∧
          ∀ b : Adjustment, b.isNeutral = false →
            ∃ n₂ g₂, (b.splice input).runOn g' = (.ok (some n₂.op), g₂) ∧
              SpliceEffect g' d b.stage n₂ g₂ ∧
              g₂.consumers n₂.out = [(n.op, 0)] ∧
              g₂.consumers n.out = g.consumers d := by
  obtain ⟨d, hfirst⟩ := exists_firstOutput hout
  have hsite : g.Spliceable input d := ⟨h, alt, hop, hfirst⟩
  refine ⟨d, hsite.first, hsite.kind?_first, fun a ha => ?_⟩
  obtain ⟨n, g', run, s⟩ := hsite.splice_runOn ha
  have effect := hsite.effect s
  refine ⟨n, g', run, effect, fun b hb => ?_⟩
  obtain ⟨n₂, g₂, run₂, s₂⟩ := (hsite.of_spliced s).splice_runOn hb
  have effect₂ := (hsite.of_spliced s).effect s₂
  have hne : n.out ≠ d := by
    rintro rfl
    have := contains_of_kind? hsite.kind?_first
    rw [contains, s.fresh _ (by simp [Inserted.ids])] at this
    simp at this
  refine ⟨n₂, g₂, run₂, effect₂, ?_, ?_⟩
  · rw [effect₂.consumers_out, effect.consumers_data]
  · rw [effect₂.consumers_other n.out (contains_of_kind? s.kind?_out) hne, effect.consumers_out]

/-- A graph that has the names that a splice would give. The tensor of its parameter is read twice
by one operation, and by the parameter itself. -/
def crowded : Graph where
  slots := [some (.ofOp "x" OpType.parameter), some { Node.ofData "x:0" with shape := some [1, 3] },
    some (.ofOp "x/scale" "Relu"), some (.ofData "x/scale_1/value"),
    some (.ofOp "x/scale_1/out" "Relu"), some (.ofData "x/scale_1/value_1/data")]
  edges := [⟨1, 0, 0⟩, ⟨2, 3, 0⟩, ⟨1, 2, 1⟩, ⟨1, 2, 0⟩, ⟨0, 1, 0⟩]
  names := [("x/scale_1/value_1/data", 5), ("x/scale_1/out", 4), ("x/scale_1/value", 3),
    ("x/scale", 2), ("x:0", 1), ("x", 0)]

theorem crowded_spliced : ∃ n g',
    (Splice.applyScale 0 [2.0]).runOn crowded = (.ok (some n.op), g') ∧
      SpliceEffect crowded 1 ⟨OpType.mul, [2.0]⟩ n g' ∧
      g'.consumers n.out = [(0, 0), (2, 0), (2, 1)] ∧ g'.validate = .ok () ∧
      ∃ n₂ g₂, (Splice.applyMean 0 [1.0]).runOn g' = (.ok (some n₂.op), g₂) ∧
        SpliceEffect g' 1 ⟨OpType.add, [-1.0]⟩ n₂ g₂ ∧ g₂.consumers n₂.out = [(n.op, 0)] := by
  have h : crowded.WellFormed := wellFormed_of_names (by decide) (by decide) (by decide) (by decide)
    rfl
  have alt : crowded.Alternating := by unfold Alternating; decide
  have hout : crowded.outNodes 0 = [1] := by
    rw [outNodes, consumers_eq_singleton (c := (1, 0)) rfl]
    rfl
  have hread : crowded.consumers 1 = [(0, 0), (2, 0), (2, 1)] :=
    consumers_eq_of_sorted (l := [(0, 0), (0, 2), (1, 2)]) (by decide) (by decide)
  have hop : crowded.kind? 0 = some .op := rfl
  obtain ⟨d, hfirst, -, heffects⟩ := splice_effects h alt hop (by simp [hout])
  obtain rfl : d = 1 := by
    rw [← head?_outNodes_iff, hout] at hfirst
    simpa using hfirst.symm
  obtain ⟨n, g', run, effect, hsecond⟩ := heffects (.scale [2.0]) (by decide)
  obtain ⟨n₂, g₂, run₂, effect₂, hcons, -⟩ := hsecond (.mean [1.0]) (by decide)
  have valid : crowded.validate = .ok () := by decide +kernel
  exact ⟨n, g', run, effect, effect.consumers_out.trans hread, effect.valid valid, n₂, g₂, run₂,
    effect₂, hcons⟩

end Graph

end ModelIR
