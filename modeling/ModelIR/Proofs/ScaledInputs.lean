import Mathlib.Data.List.Count
import ModelIR.Proofs.InputMatches

/-!
# The scale of all inputs

A match is rewritten by a splice behind its parameter, hence behind the first tensor of the
parameter, whichever tensor the match binds (`scaleMatch_runOn`). A run over matches therefore puts
as many stages behind the first tensor of a parameter as there are matches of that parameter, and
none behind its other tensors (`rewriteAll_scaleMatch_runOn`).
-/

namespace ModelIR.Graph

variable {g₀ g g' : Graph} {stages : NodeId → List Stage} {config : RunConfig} {s : Float}
  {p d : NodeId} {q : NodeId × NodeId}

/-- The stage of the scale of all inputs. -/
def globalStage (s : Float) : Stage :=
  ⟨OpType.mul, [s]⟩

theorem ne_one_of_effectiveScale (hs : config.effectiveScale = some s) : (s == 1.0) = false := by
  have := (Option.filter_eq_some_iff.1 hs).2
  rwa [bne, Bool.not_eq_true'] at this

theorem isLive_inputMatch (pre : Preprocessed g₀ g stages) (alt₀ : g₀.Alternating)
    (hp : q.1 ∈ g₀.opsOfType OpType.parameter) (hd : q.2 ∈ g₀.outNodes q.1) :
    (inputMatch q).isLive g := by
  have hparam := pre.contains_of_kind? (kind?_of_mem_opsOfType hp)
  have htensor := pre.contains_of_kind? (kind?_of_mem_outNodes alt₀ hp hd)
  simp [inputMatch, Match.isLive, hparam, htensor]

theorem scaleMatch_runOn_of_none (hs : config.effectiveScale = none) (m : Match) :
    (Pass.scaleMatch m config).runOn g = (.ok (), g) := by
  rw [Pass.scaleMatch, hs]
  rfl

/-- A match is looked up in the graph; then something has to read its tensor, and a stage is spliced
in behind its parameter. -/
theorem scaleMatch_runOn_eq (hs : config.effectiveScale = some s) :
    (Pass.scaleMatch (inputMatch q) config).runOn g =
      if (g.consumers q.2).isEmpty then
        (.error (.malformedGraph (.noConsumers
          (((g.node? q.1).map Node.name).getD s!"NodeIndex({q.1})"))), g)
      else (discard (some <$> Splice.insertAfter q.1 OpType.mul "scale" [s])).runOn g := by
  have hscale : Splice.applyScale q.1 [s] =
      some <$> Splice.insertAfter q.1 OpType.mul "scale" [s] := by
    simp [Splice.applyScale, ne_one_of_effectiveScale hs]
  rw [Pass.scaleMatch, hs, ← hscale]
  refine (Edit.runOn_bind_ok (Edit.runOn_ofExcept (.ok q.1)) _).trans ?_
  refine (Edit.runOn_bind_ok (Edit.runOn_ofExcept (.ok q.2)) _).trans ?_
  refine (Edit.runOn_pass_get_bind _).trans ?_
  split_ifs <;> rfl

/-- Something has to read the tensor of a match; the error names the parameter. -/
theorem scaleMatch_runOn_of_unread {node : Node} (hs : config.effectiveScale = some s)
    (hnode : g.node? q.1 = some node) (hread : g.consumers q.2 = []) :
    (Pass.scaleMatch (inputMatch q) config).runOn g =
      (.error (.malformedGraph (.noConsumers node.name)), g) := by
  rw [scaleMatch_runOn_eq hs, hread, hnode]
  rfl

/-- A run that does not end at a match finds the tensor of the match read. -/
theorem consumers_ne_nil_of_scaleMatch (pre : Preprocessed g₀ g stages)
    (hs : config.effectiveScale = some s) (hp : q.1 ∈ g₀.opsOfType OpType.parameter)
    {rest : Unit → Edit PassError Unit}
    (run : (Pass.scaleMatch (inputMatch q) config >>= rest).runOn g = (.ok (), g')) :
    g.consumers q.2 ≠ [] := by
  intro hread
  obtain ⟨node, hnode, -⟩ := mem_opsOfType.1 hp
  rw [Edit.runOn_bind_error (scaleMatch_runOn_of_unread hs (pre.kept q.1 node hnode) hread)] at run
  simp at run

theorem scaleMatch_runOn (pre : Preprocessed g₀ g stages) (alt₀ : g₀.Alternating)
    (hs : config.effectiveScale = some s) (hp : q.1 ∈ g₀.opsOfType OpType.parameter)
    (hd : (g₀.outNodes q.1).head? = some d) (hread : g.consumers q.2 ≠ []) :
    ∃ n g', (Pass.scaleMatch (inputMatch q) config).runOn g = (.ok (), g') ∧
      Spliced g d (globalStage s) n g' ∧
      Preprocessed g₀ g' (Function.update stages d (globalStage s :: stages d)) := by
  obtain ⟨n, g', run, hspliced, hpre⟩ := pre.insertAfter_runOn alt₀ hp hd
    (show OpType.mul ≠ OpType.parameter by decide) "scale" [s]
  refine ⟨n, g', ?_, hspliced, hpre⟩
  rw [scaleMatch_runOn_eq hs, if_neg (by rwa [List.isEmpty_iff])]
  exact Edit.runOn_map_ok (Edit.runOn_map_ok run _) _

theorem Spliced.opsOfType_perm {stage : Stage} {n : Inserted} (s : Spliced g d stage n g')
    (hconst : stage.type ≠ OpType.const) :
    (g'.opsOfType stage.type).Perm (n.op :: g.opsOfType stage.type) := by
  have hperm := s.nodeIds_perm.filter fun i => (g'.node? i).any (·.isOp stage.type)
  rw [List.filter_append] at hperm
  refine hperm.trans (.of_eq ?_)
  obtain ⟨_, hop⟩ := s.op_eq
  obtain ⟨_, hc⟩ := s.const_eq
  obtain ⟨_, hoperand⟩ := s.operand_eq
  obtain ⟨_, hout⟩ := s.out_eq
  have hnew : (n.ids.filter fun i => (g'.node? i).any (·.isOp stage.type)) = [n.op] := by
    simp [Inserted.ids, hop, hc, hoperand, hout, Node.isOp, Node.ofOp, Node.ofData, constOp,
      constTensor, Ne.symm hconst]
  have hold : (g.nodeIds.filter fun i => (g'.node? i).any (·.isOp stage.type)) =
      g.opsOfType stage.type := by
    refine List.filter_congr fun i hi => ?_
    obtain ⟨node, hnode⟩ := contains_iff.1 (mem_nodeIds.1 hi)
    rw [s.node?_old hnode, hnode]
  rw [hnew, hold, List.singleton_append]

/-- A tensor that something reads is read on. -/
theorem Preprocessed.consumers_ne_nil (pre : Preprocessed g₀ g stages)
    (hp : p ∈ g₀.opsOfType OpType.parameter) (hd : d ∈ g₀.outNodes p)
    (hread : g₀.consumers d ≠ []) : g.consumers d ≠ [] := by
  obtain ⟨last, hchain, hlast⟩ := pre.chains p hp d hd
  rcases hstages : stages d with _ | ⟨stage, rest⟩
  · rw [hstages] at hchain
    obtain rfl : d = last := hchain
    rwa [hlast]
  · rw [hstages] at hchain
    obtain ⟨op, out, hcons, -⟩ := hchain
    simp [hcons]

/-- A run succeeds where something reads every tensor of the matches. -/
theorem exists_rewriteAll_scaleMatch_runOn (alt₀ : g₀.Alternating)
    (hs : config.effectiveScale = some s) :
    ∀ {l : List (NodeId × NodeId)} {g : Graph} {stages : NodeId → List Stage},
      Preprocessed g₀ g stages → (∀ q ∈ l, q ∈ g₀.inputs) → (∀ q ∈ l, g₀.consumers q.2 ≠ []) →
      ∃ g', (Pass.rewriteAll Pass.scaleMatch config (l.map inputMatch)).runOn g = (.ok (), g')
  | [], g, _, _, _, _ => ⟨g, rfl⟩
  | q :: l, g, stages, pre, hl, hread => by
    obtain ⟨hp, hq⟩ := (mem_inputs alt₀).1 (hl q List.mem_cons_self)
    have hd := List.head?_eq_some_head (List.ne_nil_of_mem hq)
    obtain ⟨n, g₁, hstep, -, hpre⟩ := scaleMatch_runOn pre alt₀ hs hp hd
      (pre.consumers_ne_nil hp hq (hread q List.mem_cons_self))
    obtain ⟨g', run⟩ := exists_rewriteAll_scaleMatch_runOn alt₀ hs hpre
      (fun r hr => hl r (List.mem_cons_of_mem _ hr))
      (fun r hr => hread r (List.mem_cons_of_mem _ hr))
    refine ⟨g', ?_⟩
    rw [List.map_cons, Pass.rewriteAll_cons (isLive_inputMatch pre alt₀ hp hq),
      Edit.runOn_bind_ok hstep, run]

/-- How many of the matches stand for a parameter whose first tensor is `d`. -/
def rewritesAt (g : Graph) (l : List (NodeId × NodeId)) (d : NodeId) : Nat :=
  l.countP fun q => (g.outNodes q.1).head? = some d

/-- A run that succeeds puts a stage behind the first tensor of a parameter for each match of the
parameter. -/
theorem rewriteAll_scaleMatch_runOn (alt₀ : g₀.Alternating) (hs : config.effectiveScale = some s) :
    ∀ {l : List (NodeId × NodeId)} {g : Graph} {stages : NodeId → List Stage},
      Preprocessed g₀ g stages → (∀ q ∈ l, q ∈ g₀.inputs) →
      (Pass.rewriteAll Pass.scaleMatch config (l.map inputMatch)).runOn g = (.ok (), g') →
      Preprocessed g₀ g' (fun d => .replicate (rewritesAt g₀ l d) (globalStage s) ++ stages d) ∧
        (g'.opsOfType OpType.mul).length = (g.opsOfType OpType.mul).length + l.length
  | [], g, stages, pre, _, run => by
    obtain rfl : g = g' := (Prod.mk.inj run).2
    exact ⟨by simpa [rewritesAt] using pre, rfl⟩
  | q :: l, g, stages, pre, hl, run => by
    obtain ⟨hp, hq⟩ := (mem_inputs alt₀).1 (hl q List.mem_cons_self)
    obtain ⟨d, hd⟩ : ∃ d, (g₀.outNodes q.1).head? = some d :=
      ⟨_, List.head?_eq_some_head (List.ne_nil_of_mem hq)⟩
    rw [List.map_cons, Pass.rewriteAll_cons (isLive_inputMatch pre alt₀ hp hq)] at run
    have hread := consumers_ne_nil_of_scaleMatch pre hs hp run
    obtain ⟨n, g₁, hstep, hspliced, hpre⟩ := scaleMatch_runOn pre alt₀ hs hp hd hread
    rw [Edit.runOn_bind_ok hstep] at run
    obtain ⟨hpre', hlength⟩ := rewriteAll_scaleMatch_runOn alt₀ hs hpre
      (fun r hr => hl r (List.mem_cons_of_mem _ hr)) run
    have hmul : (g₁.opsOfType OpType.mul).length = (g.opsOfType OpType.mul).length + 1 :=
      (hspliced.opsOfType_perm (show OpType.mul ≠ OpType.const by decide)).length_eq
    refine ⟨?_, by rw [hlength, hmul, List.length_cons]; omega⟩
    convert hpre' using 1
    funext b
    rw [rewritesAt, List.countP_cons, hd]
    by_cases hb : b = d
    · subst hb
      rw [Function.update_self, if_pos (by simp), List.replicate_succ', List.append_assoc]
      rfl
    · rw [Function.update_of_ne hb, if_neg (by simpa using Ne.symm hb)]
      rfl

/-! ## How often a tensor is scaled -/

theorem nodup_outNodes (c : g.Consistent) (alt : g.Alternating)
    (hp : p ∈ g.opsOfType OpType.parameter) : (g.outNodes p).Nodup := by
  have hperm : (g.outNodes p).Perm ((g.outgoing p).map Edge.target) := by
    have := (consumers_perm g p).map Prod.fst
    rwa [List.map_map] at this
  rw [hperm.nodup_iff, List.nodup_iff_count_le_one]
  intro d
  by_cases hd : d ∈ g.outNodes p
  · have hin := c.producers d (kind?_of_mem_outNodes alt hp hd)
    rw [incoming, ← List.countP_eq_length_filter] at hin
    refine Nat.le_trans ?_ hin
    rw [List.count, List.countP_map, outgoing, List.countP_filter]
    refine List.countP_mono_left fun e _ he => ?_
    rw [Bool.and_eq_true] at he
    simpa using he.1
  · rw [List.count_eq_zero_of_not_mem (by rwa [← hperm.mem_iff])]
    exact Nat.zero_le _

/-- The first tensor of a parameter is rewritten once for every tensor of the parameter. -/
theorem rewritesAt_inputs_of_head (c : g.Consistent) (alt : g.Alternating)
    (hp : p ∈ g.opsOfType OpType.parameter) (hd : (g.outNodes p).head? = some d) :
    rewritesAt g g.inputs d = (g.outNodes p).length := by
  have hmine : ∀ q ∈ g.inputs, ((g.outNodes q.1).head? = some d) ↔ q.1 = p := by
    intro q hq
    constructor
    · intro h
      exact c.producer_unique alt ((mem_inputs alt).1 hq).1 (List.mem_of_head? h)
        (List.mem_of_head? hd)
    · rintro rfl
      exact hd
  have hperm : (g.inputs.filter (·.1 = p)).Perm ((g.outNodes p).map (p, ·)) := by
    refine (List.perm_ext_iff_of_nodup ((nodup_inputs g).filter _) ?_).2 fun q => ?_
    · exact (nodup_outNodes c alt hp).map fun d d' h => (Prod.mk.inj h).2
    · rw [List.mem_filter, mem_inputs alt, List.mem_map, decide_eq_true_eq]
      constructor
      · rintro ⟨⟨-, hq⟩, rfl⟩
        exact ⟨q.2, hq, rfl⟩
      · rintro ⟨d, hd, rfl⟩
        exact ⟨⟨hp, hd⟩, rfl⟩
  rw [rewritesAt, List.countP_congr (q := fun q => decide (q.1 = p)) (by simpa using hmine),
    List.countP_eq_length_filter, hperm.length_eq, List.length_map]

/-- The other tensors are not rewritten. -/
theorem rewritesAt_inputs_of_mem_tail (c : g.Consistent) (alt : g.Alternating)
    (hp : p ∈ g.opsOfType OpType.parameter) {rest : List NodeId} {b : NodeId}
    (hout : g.outNodes p = d :: rest) (hb : b ∈ rest) : rewritesAt g g.inputs b = 0 := by
  refine List.countP_eq_zero.2 fun q hq h => ?_
  rw [decide_eq_true_eq] at h
  obtain rfl := c.producer_unique alt ((mem_inputs alt).1 hq).1 (List.mem_of_head? h)
    (hout ▸ List.mem_cons_of_mem _ hb : b ∈ g.outNodes p)
  rw [hout, List.head?_cons, Option.some.injEq] at h
  have hnodup := nodup_outNodes c alt hp
  rw [hout, List.nodup_cons] at hnodup
  exact hnodup.1 (h ▸ hb)

/-- A tensor is read by one new operation of a stage alone, which feeds all that read the tensor
before, on the same ports. -/
def StagedOnce (g g' : Graph) (stage : Stage) (d : NodeId) : Prop :=
  ∃ last, Chain g g' d [stage] last ∧ g'.consumers last = g.consumers d

theorem not_stagedOnce_of_consumers (h : g.WellFormed) {stage : Stage}
    (hcons : g'.consumers d = g.consumers d) : ¬ StagedOnce g g' stage d := by
  rintro ⟨last, ⟨op, out, hread, happ, -⟩, -⟩
  have hmem : (op, 0) ∈ g.consumers d := by rw [← hcons, hread]; exact List.mem_singleton_self _
  have hlive := h.target_live _ (mem_consumers.1 hmem)
  rw [contains, happ.op_new] at hlive
  simp at hlive

/-- Two stages that are led to through one another are not one. -/
theorem not_stagedOnce_of_chain {stage : Stage} {stages : List Stage} {last : NodeId}
    (h : g.WellFormed) (hchain : Chain g g' d (stage :: stage :: stages) last) :
    ¬ StagedOnce g g' stage d := by
  rintro ⟨out, ⟨op', out', hread', happ', rfl⟩, hlast⟩
  obtain ⟨op, out, hread, happ, op₂, out₂, hread₂, happ₂, -⟩ := hchain
  obtain rfl : op' = op := by
    rw [hread'] at hread
    simpa using hread
  have hout : out' = out := by
    have := happ'.output.symm.trans happ.output
    simpa using this
  have hmem : (op₂, 0) ∈ g.consumers d := by
    rw [← hlast, hout, hread₂]
    exact List.mem_singleton_self _
  have hlive := h.target_live _ (mem_consumers.1 hmem)
  rw [contains, happ₂.op_new] at hlive
  simp at hlive

theorem scaleInput_apply (g : Graph) : (Pass.scaleInput.apply config).runOn g =
    (Pass.rewriteAll Pass.scaleMatch config (g.inputs.map inputMatch)).runOn g := by
  rw [← findMatches_inputPattern]
  exact Edit.runOn_pass_get_bind _

section Scaled

variable {rest : List NodeId} (c : g.Consistent) (alt : g.Alternating)
  (pre : Preprocessed g g' fun d => .replicate (rewritesAt g g.inputs d) (globalStage s))
  (hp : p ∈ g.opsOfType OpType.parameter)

include c alt pre hp

/-- The stages of all matches of a parameter are behind its first tensor. -/
theorem Preprocessed.chains_scaled (hout : g.outNodes p = d :: rest) :
    (∃ last, Chain g g' d (.replicate (rest.length + 1) (globalStage s)) last ∧
      g'.consumers last = g.consumers d) ∧
    ∀ b ∈ rest, g'.consumers b = g.consumers b := by
  refine ⟨?_, fun b hb => ?_⟩
  · have hchain := pre.chains p hp d (hout ▸ List.mem_cons_self)
    rwa [rewritesAt_inputs_of_head c alt hp (by rw [hout]; rfl), hout] at hchain
  · obtain ⟨last, hchain, hlast⟩ := pre.chains p hp b (hout ▸ List.mem_cons_of_mem _ hb)
    rw [rewritesAt_inputs_of_mem_tail c alt hp hout hb] at hchain
    obtain rfl : b = last := hchain
    exact hlast

theorem Preprocessed.stagedOnce_iff (h : g.WellFormed) (hd : d ∈ g.outNodes p) :
    StagedOnce g g' (globalStage s) d ↔ g.outNodes p = [d] := by
  constructor
  · intro honce
    rcases hout : g.outNodes p with _ | ⟨b, _ | ⟨b', rest⟩⟩
    · simp [hout] at hd
    · rw [hout, List.mem_singleton] at hd
      rw [hd]
    · obtain ⟨⟨last, hchain, -⟩, hothers⟩ := pre.chains_scaled c alt hp hout
      rw [hout, List.mem_cons] at hd
      rcases hd with rfl | hd
      · exact absurd honce (not_stagedOnce_of_chain h hchain)
      · exact absurd honce (not_stagedOnce_of_consumers h (hothers d hd))
  · intro hout
    exact (pre.chains_scaled c alt hp hout).1

end Scaled

/-- What the scale of all inputs does. Each match adds one operation, but all matches of a parameter
add theirs behind its first tensor: this tensor is scaled once for every tensor of the parameter,
and the others are not scaled. Hence a tensor is scaled exactly once if and only if its parameter
writes no other. The index of names has to be that of the nodes (`WellFormed`), so this is not about
graphs with a node that was renamed in place. -/
theorem scaleInput_scales_first (h : g.WellFormed) (alt : g.Alternating)
    (valid : g.validate = .ok ()) (hs : config.effectiveScale = some s)
    (run : (Pass.scaleInput.apply config).runOn g = (.ok (), g')) :
    (g'.opsOfType OpType.mul).length =
        (g.opsOfType OpType.mul).length + (Pass.inputPattern.findMatches g).length ∧
      (∀ p ∈ g.opsOfType OpType.parameter, ∀ d rest, g.outNodes p = d :: rest →
        (∃ last, Chain g g' d (.replicate (rest.length + 1) ⟨OpType.mul, [s]⟩) last ∧
          g'.consumers last = g.consumers d) ∧
        ∀ b ∈ rest, g'.consumers b = g.consumers b) ∧
      ∀ p ∈ g.opsOfType OpType.parameter, ∀ d ∈ g.outNodes p,
        StagedOnce g g' ⟨OpType.mul, [s]⟩ d ↔ g.outNodes p = [d] := by
  have c := validate_eq_ok_iff.1 valid
  rw [scaleInput_apply] at run
  obtain ⟨pre, hlength⟩ := rewriteAll_scaleMatch_runOn alt hs (.refl h alt c) (fun _ => id) run
  simp only [List.append_nil] at pre
  refine ⟨by rw [hlength, findMatches_inputPattern, List.length_map], ?_, ?_⟩
  · exact fun p hp d rest hout => pre.chains_scaled c alt hp hout
  · exact fun p hp d hd => pre.stagedOnce_iff c alt hp h hd

/-- A parameter that writes two tensors, each of which is read. -/
def twoOutputs : Graph where
  slots := [some (.ofOp "x" OpType.parameter), some (.ofData "x:0"), some (.ofData "x:1"),
    some (.ofOp "f" "Relu"), some (.ofOp "h" "Relu")]
  edges := [⟨2, 4, 0⟩, ⟨1, 3, 0⟩, ⟨0, 2, 1⟩, ⟨0, 1, 0⟩]
  names := [("h", 4), ("f", 3), ("x:1", 2), ("x:0", 1), ("x", 0)]

/-- One tensor is scaled twice and the other one not at all. -/
theorem twoOutputs_scaled : ∃ g',
    (Pass.scaleInput.apply { scale := some 2.0 }).runOn twoOutputs = (.ok (), g') ∧
      (∃ last, Chain twoOutputs g' 1 [⟨OpType.mul, [2.0]⟩, ⟨OpType.mul, [2.0]⟩] last ∧
        g'.consumers last = twoOutputs.consumers 1) ∧
      g'.consumers 2 = twoOutputs.consumers 2 ∧
      ¬ StagedOnce twoOutputs g' ⟨OpType.mul, [2.0]⟩ 1 ∧
      ¬ StagedOnce twoOutputs g' ⟨OpType.mul, [2.0]⟩ 2 := by
  have h : twoOutputs.WellFormed := wellFormed_of_names (by decide) (by decide) (by decide)
    (by decide) rfl
  have alt : twoOutputs.Alternating := by unfold Alternating; decide
  have valid : twoOutputs.validate = .ok () := by decide +kernel
  have hs : RunConfig.effectiveScale { scale := some 2.0 } = some 2.0 :=
    Option.filter_eq_some_iff.2 ⟨rfl, by decide⟩
  have hp : (0 : NodeId) ∈ twoOutputs.opsOfType OpType.parameter := by decide
  have hout : twoOutputs.outNodes 0 = [1, 2] := by
    rw [outNodes, consumers_eq_of_sorted (l := [(0, 1), (1, 2)]) (by decide) (by decide)]
    rfl
  have hread : ∀ q ∈ twoOutputs.inputs, twoOutputs.consumers q.2 ≠ [] := by
    have hfirst : twoOutputs.consumers 1 = [(3, 0)] := consumers_eq_singleton rfl
    have hsecond : twoOutputs.consumers 2 = [(4, 0)] := consumers_eq_singleton rfl
    have hinputs : twoOutputs.inputs = [(0, 1), (0, 2)] := by decide
    simp [hinputs, hfirst, hsecond]
  obtain ⟨g', run⟩ := exists_rewriteAll_scaleMatch_runOn alt hs
    (.refl h alt (validate_eq_ok_iff.1 valid)) (fun _ => id) hread
  rw [← scaleInput_apply] at run
  obtain ⟨-, hfirst, honce⟩ := scaleInput_scales_first h alt valid hs run
  obtain ⟨hchain, hother⟩ := hfirst 0 hp 1 [2] hout
  refine ⟨g', run, hchain, hother 2 (by simp), ?_, ?_⟩
  · rw [honce 0 hp 1 (by simp [hout]), hout]
    simp
  · rw [honce 0 hp 2 (by simp [hout]), hout]
    simp

end ModelIR.Graph
