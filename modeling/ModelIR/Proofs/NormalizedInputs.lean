import ModelIR.Proofs.InputMatches

/-!
# The means and scales of single inputs

An input is looked up by its name, which leads to the parameter that it led to before any splice
(`Preprocessed.isParameter_iff`). Its scale is spliced in first and its mean second, so the mean
stands before the scale in the chain of the input (`normalizeInput_runOn`, `normalizeAll_runOn`).
-/

namespace ModelIR

namespace MeanScale

/-- The stage that subtracts the mean, unless all of it is zero. -/
def meanStages (values : MeanScale) : List Stage :=
  (values.mean.toList.filter fun mean => !mean.all (· == 0.0)).map fun mean =>
    ⟨OpType.add, mean.map (- ·)⟩

/-- The stage that applies the scale, unless all of it is one. -/
def scaleStages (values : MeanScale) : List Stage :=
  (values.scale.toList.filter fun scale => !scale.all (· == 1.0)).map fun scale =>
    ⟨OpType.mul, scale⟩

/-- The stages of one input, in the order in which they are applied. -/
def stages (values : MeanScale) : List Stage :=
  values.meanStages ++ values.scaleStages

theorem meanStages_eq {values : MeanScale} {mean : List Float} (h : values.mean = some mean) :
    values.meanStages = Adjustment.stages [.mean mean] := by
  rw [meanStages, h, Adjustment.stages, List.filter_singleton]
  cases hneutral : mean.all (· == 0.0) <;> simp [hneutral, Adjustment.isNeutral, Adjustment.stage]

theorem scaleStages_eq {values : MeanScale} {scale : List Float} (h : values.scale = some scale) :
    values.scaleStages = Adjustment.stages [.scale scale] := by
  rw [scaleStages, h, Adjustment.stages, List.filter_singleton]
  cases hneutral : scale.all (· == 1.0) <;> simp [hneutral, Adjustment.isNeutral, Adjustment.stage]

end MeanScale

namespace Graph

variable {g₀ g g' : Graph} {stages : NodeId → List Stage} {p d : NodeId} {name : String}
  {values : MeanScale}

/-! ## Looking inputs up -/

/-- `p` is the parameter of a name. -/
def IsParameter (g : Graph) (name : String) (p : NodeId) : Prop :=
  ∃ node, g.node? p = some node ∧ node.isOp OpType.parameter = true ∧ node.name = name

theorem IsParameter.mem_opsOfType (h : g.IsParameter name p) :
    p ∈ g.opsOfType OpType.parameter := by
  obtain ⟨node, hnode, hop, -⟩ := h
  exact Graph.mem_opsOfType.2 ⟨node, hnode, hop⟩

theorem IsParameter.unique {q : NodeId} (h : g.WellFormed) (hp : g.IsParameter name p)
    (hq : g.IsParameter name q) : p = q := by
  obtain ⟨node, hnode, -, hname⟩ := hp
  obtain ⟨node', hnode', -, hname'⟩ := hq
  have hfind := (h.find_iff name p).2 ⟨node, hnode, hname⟩
  rw [(h.find_iff name q).2 ⟨node', hnode', hname'⟩, Option.some.injEq] at hfind
  exact hfind.symm

theorem IsParameter.name_unique {other : String} (hp : g.IsParameter name p)
    (hp' : g.IsParameter other p) : name = other := by
  obtain ⟨node, hnode, -, rfl⟩ := hp
  obtain ⟨node', hnode', -, rfl⟩ := hp'
  rw [hnode, Option.some.injEq] at hnode'
  rw [hnode']

theorem parameter_eq_ok_iff (h : g.WellFormed) :
    Pass.parameter g name = .ok p ↔ g.IsParameter name p := by
  have hsome : Pass.parameter g name = .ok p ↔
      ((g.find? name).filter fun i => (g.node? i).any (·.isOp OpType.parameter)) = some p := by
    rw [Pass.parameter]
    split
    · next i hi => simp [hi]
    · next hi => simp [hi]
  rw [hsome, Option.filter_eq_some_iff, h.find_iff]
  constructor
  · rintro ⟨⟨node, hnode, hname⟩, hop⟩
    rw [hnode] at hop
    exact ⟨node, hnode, hop, hname⟩
  · rintro ⟨node, hnode, hop, hname⟩
    exact ⟨⟨node, hnode, hname⟩, by rw [hnode]; exact hop⟩

theorem parameter_eq_error (h : g.WellFormed) (hnone : ∀ p, ¬ g.IsParameter name p) :
    Pass.parameter g name = .error (.unknownInput name) := by
  rcases hp : Pass.parameter g name with e | p
  · rw [Pass.parameter] at hp
    split at hp
    · simp at hp
    · rw [← hp]
  · exact absurd ((parameter_eq_ok_iff h).1 hp) (hnone p)

/-- A name leads to the parameter that it led to before. -/
theorem Preprocessed.isParameter_iff (pre : Preprocessed g₀ g stages) :
    g.IsParameter name p ↔ g₀.IsParameter name p := by
  constructor
  · rintro ⟨node, hnode, hop, hname⟩
    rcases h₀ : g₀.node? p with _ | node₀
    · rw [pre.added p node h₀ hnode] at hop
      simp at hop
    · rw [pre.kept p node₀ h₀, Option.some.injEq] at hnode
      exact ⟨node₀, h₀, hnode ▸ hop, hnode ▸ hname⟩
  · rintro ⟨node, hnode, hop, hname⟩
    exact ⟨node, pre.kept p node hnode, hop, hname⟩

/-! ## Splicing the stages of an input -/

theorem Preprocessed.splice_runOn (pre : Preprocessed g₀ g stages) (alt₀ : g₀.Alternating)
    (hp : p ∈ g₀.opsOfType OpType.parameter) (hd : (g₀.outNodes p).head? = some d)
    (a : Adjustment) :
    ∃ r g', (a.splice p).runOn g = (.ok r, g') ∧
      Preprocessed g₀ g' (Function.update stages d (Adjustment.stages [a] ++ stages d)) := by
  rcases ha : a.isNeutral with _ | _
  · obtain ⟨suffix, hsplice⟩ := Adjustment.splice_eq_insertAfter ha p
    obtain ⟨n, g', run, -, hpre⟩ := pre.insertAfter_runOn alt₀ hp hd a.type_ne_parameter suffix
      a.stage.operand
    refine ⟨some n.op, g', ?_, ?_⟩
    · rw [hsplice]
      exact Edit.runOn_map_ok run _
    · simpa [Adjustment.stages, ha] using hpre
  · refine ⟨none, g, ?_, ?_⟩
    · rw [Adjustment.splice_of_isNeutral ha]
      rfl
    · simpa [Adjustment.stages, ha] using pre

theorem normalizeInput_runOn (values : MeanScale) (pre : Preprocessed g₀ g stages)
    (alt₀ : g₀.Alternating) (hp : g₀.IsParameter name p) (hd : (g₀.outNodes p).head? = some d) :
    ∃ g', (Pass.normalizeInput name values).runOn g = (.ok (), g') ∧
      Preprocessed g₀ g' (Function.update stages d (values.stages ++ stages d)) := by
  have hparam : Pass.parameter g name = .ok p :=
    (parameter_eq_ok_iff pre.wellFormed).2 (pre.isParameter_iff.2 hp)
  obtain ⟨g₁, run₁, pre₁⟩ : ∃ g₁,
      Edit.runOn (values.scale.forM fun scale => discard (Splice.applyScale p scale)) g =
        (.ok (), g₁) ∧
      Preprocessed g₀ g₁ (Function.update stages d (values.scaleStages ++ stages d)) := by
    rcases hscale : values.scale with _ | scale
    · refine ⟨g, rfl, ?_⟩
      simpa [MeanScale.scaleStages, hscale] using pre
    · obtain ⟨r, g₁, run, hpre⟩ := pre.splice_runOn alt₀ hp.mem_opsOfType hd (.scale scale)
      refine ⟨g₁, Edit.runOn_map_ok run _, ?_⟩
      rwa [← MeanScale.scaleStages_eq hscale] at hpre
  obtain ⟨g₂, run₂, pre₂⟩ : ∃ g₂,
      Edit.runOn (values.mean.forM fun mean => discard (Splice.applyMean p mean)) g₁ =
        (.ok (), g₂) ∧
      Preprocessed g₀ g₂ (Function.update stages d (values.stages ++ stages d)) := by
    rcases hmean : values.mean with _ | mean
    · refine ⟨g₁, rfl, ?_⟩
      simpa [MeanScale.stages, MeanScale.meanStages, hmean] using pre₁
    · obtain ⟨r, g₂, run, hpre⟩ := pre₁.splice_runOn alt₀ hp.mem_opsOfType hd (.mean mean)
      refine ⟨g₂, Edit.runOn_map_ok run _, ?_⟩
      simpa [MeanScale.stages, MeanScale.meanStages_eq hmean] using hpre
  refine ⟨g₂, ?_, pre₂⟩
  rw [Pass.normalizeInput, Edit.runOn_pass_get_bind, hparam]
  refine (Edit.runOn_bind_ok (Edit.runOn_ofExcept (.ok p)) _).trans ?_
  exact (Edit.runOn_bind_ok run₁ _).trans run₂

theorem normalizeInput_runOn_of_unknown (values : MeanScale) (pre : Preprocessed g₀ g stages)
    (hnone : ∀ p, ¬ g₀.IsParameter name p) :
    (Pass.normalizeInput name values).runOn g = (.error (.unknownInput name), g) := by
  rw [Pass.normalizeInput, Edit.runOn_pass_get_bind,
    parameter_eq_error pre.wellFormed fun p hp => hnone p (pre.isParameter_iff.1 hp)]
  exact Edit.runOn_bind_error (Edit.runOn_ofExcept _) _

/-! ## All inputs -/

/-- The stages of the input of a name. -/
def stagesOf (inputs : List (String × MeanScale)) (name : String) : List Stage :=
  ((inputs.lookup name).map MeanScale.stages).getD []

theorem stagesOf_cons_self (inputs : List (String × MeanScale)) :
    stagesOf ((name, values) :: inputs) name = values.stages := by
  simp [stagesOf]

theorem stagesOf_cons_of_ne {inputs : List (String × MeanScale)} {other : String}
    (hne : other ≠ name) : stagesOf ((name, values) :: inputs) other = stagesOf inputs other := by
  rw [stagesOf, List.lookup_cons, beq_false_of_ne hne]
  rfl

theorem stagesOf_eq_nil {inputs : List (String × MeanScale)} (h : name ∉ inputs.map Prod.fst) :
    stagesOf inputs name = [] := by
  have : inputs.lookup name = none := by
    refine List.lookup_eq_none_iff.2 fun entry hentry => bne_iff_ne.2 ?_
    rintro rfl
    exact h (List.mem_map_of_mem hentry)
  rw [stagesOf, this]
  rfl

/-- Inputs are normalized one after the other. The run succeeds if and only if every name is that of
a parameter, and each parameter's chain is then longer by the stages of its name. -/
theorem normalizeAll_runOn (h₀ : g₀.WellFormed) (alt₀ : g₀.Alternating) (c₀ : g₀.Consistent)
    (single : g₀.SingleOutputs) :
    ∀ {inputs : List (String × MeanScale)} {g : Graph} {stages : NodeId → List Stage},
      (inputs.map Prod.fst).Nodup → Preprocessed g₀ g stages →
      ∃ r g', (inputs.forM fun input => Pass.normalizeInput input.1 input.2).runOn g = (r, g') ∧
        (r = .ok ⟨⟩ ↔ ∀ input ∈ inputs, ∃ p, g₀.IsParameter input.1 p) ∧
        (r = .ok ⟨⟩ → ∃ stages', Preprocessed g₀ g' stages' ∧ ∀ name p, g₀.IsParameter name p →
          ∀ d ∈ g₀.outNodes p, stages' d = stagesOf inputs name ++ stages d)
  | [], g, stages, _, pre => ⟨.ok ⟨⟩, g, rfl, by simp, fun _ => ⟨stages, pre, fun _ _ _ _ _ => rfl⟩⟩
  | (name, values) :: inputs, g, stages, hnodup, pre => by
    rw [List.map_cons, List.nodup_cons] at hnodup
    by_cases hname : ∃ p, g₀.IsParameter name p
    · obtain ⟨p, hp⟩ := hname
      obtain ⟨d, hd⟩ := single p hp.mem_opsOfType
      obtain ⟨g₁, run₁, pre₁⟩ := normalizeInput_runOn values pre alt₀ hp
        (d := d) (by rw [hd]; rfl)
      obtain ⟨r, g₂, run₂, hok, hstages⟩ := normalizeAll_runOn h₀ alt₀ c₀ single hnodup.2 pre₁
      refine ⟨r, g₂, (Edit.runOn_bind_ok run₁ _).trans run₂, ?_, fun hr => ?_⟩
      · rw [hok, List.forall_mem_cons]
        exact ⟨fun hrest => ⟨⟨p, hp⟩, hrest⟩, And.right⟩
      · obtain ⟨stages', pre₂, hstages⟩ := hstages hr
        refine ⟨stages', pre₂, fun other q hq b hb => ?_⟩
        rw [hstages other q hq b hb]
        by_cases hother : other = name
        · subst hother
          obtain rfl := hq.unique h₀ hp
          rw [hd, List.mem_singleton] at hb
          subst hb
          rw [Function.update_self, stagesOf_cons_self, stagesOf_eq_nil hnodup.1, List.nil_append]
        · have hne : b ≠ d := by
            rintro rfl
            obtain rfl := c₀.producer_unique alt₀ hq.mem_opsOfType hb
              (hd ▸ List.mem_singleton_self b : b ∈ g₀.outNodes p)
            exact hother (hq.name_unique hp)
          rw [Function.update_of_ne hne, stagesOf_cons_of_ne hother]
    · have herror := normalizeInput_runOn_of_unknown values pre
        (fun p hp => hname ⟨p, hp⟩)
      refine ⟨_, g, Edit.runOn_bind_error herror _, ?_, by simp⟩
      simp [hname]

end Graph

end ModelIR
