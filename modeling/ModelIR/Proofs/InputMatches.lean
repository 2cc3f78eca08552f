import Mathlib.Data.List.Nodup
import ModelIR.Proofs.Preprocessing

/-!
# The inputs of a graph

The pattern of an input matches every pair of a parameter and a tensor that it writes, and each once
(`findMatches_inputPattern`, `mem_inputs`, `nodup_inputs`).
-/

namespace ModelIR.Graph

variable {g : Graph} {q : NodeId × NodeId}

/-- The parameters with the tensors that they write, in ascending order. -/
def inputs (g : Graph) : List (NodeId × NodeId) :=
  (g.opsOfType OpType.parameter).flatMap fun p =>
    (g.nodeIds.filter fun d =>
      !decide (d = p) && (g.node? d).any (NodeMatcher.accepts .data) && g.hasEdge p d).map (p, ·)

/-- Every parameter writes exactly one tensor. -/
def SingleOutputs (g : Graph) : Prop :=
  ∀ p ∈ g.opsOfType OpType.parameter, ∃ d, g.outNodes p = [d]

/-- The match that binds a parameter and a tensor. -/
def inputMatch (q : NodeId × NodeId) : Match :=
  ⟨[("placeholder", q.1), ("data", q.2)]⟩

theorem edgesHold_placeholder (g : Graph) (p : NodeId) :
    Pass.inputPattern.edgesHold g [p] = true := by
  have hfrom : Pass.inputPattern.position? "placeholder" = some 0 := by decide
  have hto : Pass.inputPattern.position? "data" = some 1 := by decide
  change ([("placeholder", "data")] : List (String × String)).all _ = true
  simp [hfrom, hto]

theorem edgesHold_pair (g : Graph) (p d : NodeId) :
    Pass.inputPattern.edgesHold g [p, d] = g.hasEdge p d := by
  have hfrom : Pass.inputPattern.position? "placeholder" = some 0 := by decide
  have hto : Pass.inputPattern.position? "data" = some 1 := by decide
  change ([("placeholder", "data")] : List (String × String)).all _ = _
  simp [hfrom, hto]

theorem extensions_pair (g : Graph) (p : NodeId) :
    Pass.inputPattern.extensions g [p] [.data] =
      (g.nodeIds.filter fun d =>
        !decide (d = p) && (g.node? d).any (NodeMatcher.accepts .data) && g.hasEdge p d).map
          ([p, ·]) := by
  simp only [Pattern.extensions, List.cons_append, List.nil_append, edgesHold_pair]
  rw [List.map_eq_flatMap]
  congr 2
  funext d
  simp

theorem findMatches_inputPattern (g : Graph) :
    Pass.inputPattern.findMatches g = g.inputs.map inputMatch := by
  have hpattern : (Pass.inputPattern.nodes.isEmpty ||
      !Pass.inputPattern.edgesAreLabelled) = false :=
    by decide
  rw [Pattern.findMatches, hpattern]
  change (Pass.inputPattern.extensions g [] [.op OpType.parameter, .data]).map
    (Match.ofLists ["placeholder", "data"]) = _
  have hparams : (g.nodeIds.filter fun i => !([] : List NodeId).contains i &&
      (g.node? i).any (NodeMatcher.accepts (.op OpType.parameter)) &&
        Pass.inputPattern.edgesHold g ([] ++ [i])) = g.opsOfType OpType.parameter := by
    refine List.filter_congr fun i _ => ?_
    rw [List.nil_append, edgesHold_placeholder]
    simp only [List.contains_nil, Bool.not_false, Bool.true_and, Bool.and_true]
    rfl
  have hext : Pass.inputPattern.extensions g [] [.op OpType.parameter, .data] =
      (g.opsOfType OpType.parameter).flatMap fun p =>
        Pass.inputPattern.extensions g [p] [.data] := by
    rw [← hparams]
    rfl
  rw [hext, inputs, List.map_flatMap, List.map_flatMap]
  congr 1
  funext p
  rw [extensions_pair, List.map_map, List.map_map]
  refine List.map_congr_left fun d hd => ?_
  simp [Match.ofLists, inputMatch]

theorem mem_inputs (alt : g.Alternating) :
    q ∈ g.inputs ↔ q.1 ∈ g.opsOfType OpType.parameter ∧ q.2 ∈ g.outNodes q.1 := by
  obtain ⟨p, d⟩ := q
  simp only [inputs, List.mem_flatMap, List.mem_map, List.mem_filter, Bool.and_eq_true,
    Prod.mk.injEq]
  constructor
  · rintro ⟨p, hp, d, ⟨-, -, hedge⟩, rfl, rfl⟩
    exact ⟨hp, mem_outNodes_iff_hasEdge.2 hedge⟩
  · rintro ⟨hp, hd⟩
    have hk := kind?_of_mem_outNodes alt hp hd
    refine ⟨p, hp, d, ⟨mem_nodeIds.2 (contains_of_kind? hk), ⟨?_, ?_⟩,
      mem_outNodes_iff_hasEdge.1 hd⟩, rfl, rfl⟩
    · have hne : d ≠ p := by
        rintro rfl
        rw [kind?_of_mem_opsOfType hp] at hk
        simp at hk
      simp [hne]
    · obtain ⟨node, hnode, hdata⟩ := Option.map_eq_some_iff.1 hk
      simp [hnode, NodeMatcher.accepts, hdata]

theorem nodup_inputs (g : Graph) : g.inputs.Nodup := by
  refine List.nodup_flatMap.2 ⟨fun p _ => ?_, ?_⟩
  · exact ((nodup_nodeIds g).filter _).map fun d d' h => (Prod.mk.inj h).2
  · refine ((nodup_nodeIds g).filter _).imp fun {p p'} hne => ?_
    intro q hq hq'
    obtain ⟨d, -, rfl⟩ := List.mem_map.1 hq
    obtain ⟨d', -, h⟩ := List.mem_map.1 hq'
    exact hne (Prod.mk.inj h).1.symm

/-- A tensor that a check accepts has one producer. -/
theorem Consistent.producer_unique (c : g.Consistent) (alt : g.Alternating) {p p' d : NodeId}
    (hp : p ∈ g.opsOfType OpType.parameter) (hd : d ∈ g.outNodes p) (hd' : d ∈ g.outNodes p') :
    p = p' := by
  have hk := kind?_of_mem_outNodes alt hp hd
  obtain ⟨port, he⟩ := mem_outNodes.1 hd
  obtain ⟨port', he'⟩ := mem_outNodes.1 hd'
  have hlen := c.producers d hk
  have hmem : (⟨p, d, port⟩ : Edge) ∈ g.incoming d := List.mem_filter.2 ⟨he, by simp⟩
  have hmem' : (⟨p', d, port'⟩ : Edge) ∈ g.incoming d := List.mem_filter.2 ⟨he', by simp⟩
  rcases hin : g.incoming d with _ | ⟨e, _ | ⟨e', rest⟩⟩
  · simp [hin] at hmem
  · rw [hin, List.mem_singleton] at hmem hmem'
    exact (Edge.mk.inj (hmem.trans hmem'.symm)).1
  · simp [hin] at hlen

end ModelIR.Graph
