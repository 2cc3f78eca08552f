import Mathlib.Logic.Function.Basic
import ModelIR.Pass.Builtin
import ModelIR.Proofs.Chains

/-!
# Preprocessed graphs

While inputs are preprocessed, a graph keeps what it held, no parameter is added, and a chain of
stages leads from every tensor that a parameter writes to what the tensor's consumers read now
(`Preprocessed`). A splice behind a parameter makes the chain of its first tensor one stage longer
(`Preprocessed.insertAfter_runOn`).
-/

namespace ModelIR.Graph

variable {g₀ g g' : Graph} {i p d : NodeId} {type : String} {node : Node}

theorem mem_opsOfType :
    i ∈ g.opsOfType type ↔ ∃ node, g.node? i = some node ∧ node.isOp type = true := by
  rw [opsOfType, List.mem_filter, mem_nodeIds, contains_iff]
  constructor
  · rintro ⟨⟨node, hnode⟩, htype⟩
    rw [hnode] at htype
    exact ⟨node, hnode, htype⟩
  · rintro ⟨node, hnode, htype⟩
    exact ⟨⟨node, hnode⟩, by rw [hnode]; exact htype⟩

theorem kind?_of_mem_opsOfType (h : i ∈ g.opsOfType type) : g.kind? i = some .op := by
  obtain ⟨node, hnode, htype⟩ := mem_opsOfType.1 h
  rw [Node.isOp, Bool.and_eq_true, decide_eq_true_eq] at htype
  rw [kind?, hnode, ← htype.1]
  rfl

/-- What a parameter writes is a tensor. -/
theorem kind?_of_mem_outNodes (alt : g.Alternating) (hp : p ∈ g.opsOfType type)
    (hd : d ∈ g.outNodes p) : g.kind? d = some .data := by
  obtain ⟨port, he⟩ := mem_outNodes.1 hd
  exact alt.kind?_target he (kind?_of_mem_opsOfType hp)

/-- `g` is `g₀` with stages behind the tensors that its parameters write. -/
structure Preprocessed (g₀ g : Graph) (stages : NodeId → List Stage) : Prop where
  wellFormed : g.WellFormed
  alternating : g.Alternating
  consistent : g.Consistent
  kept : ∀ i node, g₀.node? i = some node → g.node? i = some node
  added : ∀ i node, g₀.node? i = none → g.node? i = some node →
    node.isOp OpType.parameter = false
  outNodes : ∀ p ∈ g₀.opsOfType OpType.parameter, g.outNodes p = g₀.outNodes p
  chains : ∀ p ∈ g₀.opsOfType OpType.parameter, ∀ d ∈ g₀.outNodes p,
    ∃ last, Chain g₀ g d (stages d) last ∧ g.consumers last = g₀.consumers d

theorem Preprocessed.refl (h : g.WellFormed) (alt : g.Alternating) (c : g.Consistent) :
    Preprocessed g g fun _ => [] where
  wellFormed := h
  alternating := alt
  consistent := c
  kept _ _ := id
  added i node hi hnode := by
    rw [hi] at hnode
    simp at hnode
  outNodes _ _ := rfl
  chains p _ d _ := ⟨d, rfl, rfl⟩

namespace Preprocessed

variable {stages : NodeId → List Stage}

theorem contains_of_kind? (pre : Preprocessed g₀ g stages) {k : NodeKind}
    (h : g₀.kind? i = some k) : g.contains i := by
  obtain ⟨node, hnode, -⟩ := Option.map_eq_some_iff.1 h
  exact contains_iff.2 ⟨node, pre.kept i node hnode⟩

theorem spliced {stage : Stage} {n : Inserted} (pre : Preprocessed g₀ g stages)
    (alt₀ : g₀.Alternating) (hp : p ∈ g₀.opsOfType OpType.parameter) (hd : d ∈ g₀.outNodes p)
    (hstage : stage.type ≠ OpType.parameter) (s : Spliced g d stage n g') :
    Preprocessed g₀ g' (Function.update stages d (stage :: stages d)) := by
  obtain ⟨tensor, htensor, hk⟩ := Option.map_eq_some_iff.1 (kind?_of_mem_outNodes alt₀ hp hd)
  have htensor' := pre.kept d tensor htensor
  have hkind : g.kind? d = some .data := by rw [kind?, htensor', ← hk]; rfl
  exact {
    wellFormed := s.wellFormed
    alternating := s.alternating hkind pre.alternating
    consistent := s.consistent pre.wellFormed pre.consistent
    kept := fun i node hi => s.node?_old (pre.kept i node hi)
    added := by
      intro i node hi hnode
      by_cases hids : i ∈ n.ids
      · exact s.isOp_eq_false hstage (by decide) hids hnode
      · rw [s.kept i hids] at hnode
        exact pre.added i node hi hnode
    outNodes := by
      intro q hq
      obtain ⟨node, hnode, -⟩ := mem_opsOfType.1 hq
      rw [← pre.outNodes q hq]
      refine outNodes_eq_of_consumers (s.consumers_old (pre.kept q node hnode) ?_)
      rintro rfl
      have := kind?_of_mem_opsOfType hq
      rw [kind?_of_mem_outNodes alt₀ hp hd] at this
      simp at this
    chains := by
      intro q hq b hb
      obtain ⟨last, hchain, hlast⟩ := pre.chains q hq b hb
      by_cases hbd : b = d
      · subst hbd
        obtain ⟨last', hchain', hlast'⟩ := hchain.spliced_self s pre.wellFormed pre.kept htensor
        rw [Function.update_self]
        exact ⟨last', hchain', hlast'.trans hlast⟩
      · obtain ⟨hchain', hlast'⟩ := hchain.spliced_other s htensor
          (pre.contains_of_kind? (kind?_of_mem_outNodes alt₀ hq hb)) hbd
        rw [Function.update_of_ne hbd]
        exact ⟨last, hchain', hlast'.trans hlast⟩ }

/-- A stage spliced in behind a parameter stands at the head of the chain of its first tensor. -/
theorem insertAfter_runOn (pre : Preprocessed g₀ g stages) (alt₀ : g₀.Alternating)
    (hp : p ∈ g₀.opsOfType OpType.parameter) (hd : (g₀.outNodes p).head? = some d) {type : String}
    (htype : type ≠ OpType.parameter) (suffix : String) (values : List Float) :
    ∃ n g', (Splice.insertAfter p type suffix values).runOn g = (.ok n.op, g') ∧
      Spliced g d ⟨type, values⟩ n g' ∧
      Preprocessed g₀ g' (Function.update stages d (⟨type, values⟩ :: stages d)) := by
  have hmem := List.mem_of_head? hd
  obtain ⟨node, hnode, -⟩ := mem_opsOfType.1 hp
  obtain ⟨tensor, htensor, hk⟩ := Option.map_eq_some_iff.1 (kind?_of_mem_outNodes alt₀ hp hmem)
  rw [← pre.outNodes p hp] at hd
  obtain ⟨n, g', run, s⟩ := Graph.insertAfter_runOn pre.wellFormed (pre.kept p node hnode) hd
    (pre.kept d tensor htensor) hk type suffix values
  exact ⟨n, g', run, s, pre.spliced alt₀ hp hmem htype s⟩

end Preprocessed

end ModelIR.Graph
