import Mathlib.Data.List.Permutation
import ModelIR.Pass.Pipeline
import ModelIR.Proofs.NormalizedInputs
import ModelIR.Proofs.ScaledInputs

/-!
# The standard pipeline

The pipeline of the middle stage applies the scale of all inputs and then the means and scales of
single inputs. Where every parameter writes one tensor, each match of the first pass rewrites the
tensor that it binds, so the run succeeds if and only if every tensor to be scaled is read and every
configured name is that of a parameter, and each input then goes through its mean, its scale and the
scale of all inputs, in this order (`standard_run`).
-/

namespace ModelIR

namespace RunConfig

/-- The stage of the scale of all inputs, if there is one to apply. -/
def globalStages (config : RunConfig) : List Stage :=
  config.effectiveScale.toList.map fun s => ⟨OpType.mul, [s]⟩

end RunConfig

namespace Graph

variable {g₀ g g' : Graph} {stages : NodeId → List Stage} {config : RunConfig} {p d : NodeId}

/-! ## The scale of all inputs -/

theorem rewriteAll_scaleMatch_runOn_of_none (hs : config.effectiveScale = none) (g : Graph) :
    ∀ l : List Match, (Pass.rewriteAll Pass.scaleMatch config l).runOn g = (.ok (), g)
  | [] => rfl
  | m :: l => by
    have hrest := rewriteAll_scaleMatch_runOn_of_none hs g l
    rw [Pass.rewriteAll, Edit.runOn_pass_get_bind]
    split_ifs
    · exact (Edit.runOn_bind_ok (scaleMatch_runOn_of_none hs m) _).trans hrest
    · exact hrest

/-- A run over matches of which no two rewrite one tensor succeeds only if every tensor is read. -/
theorem consumers_ne_nil_of_rewriteAll {s : Float} (alt₀ : g₀.Alternating) (c₀ : g₀.Consistent)
    (single : g₀.SingleOutputs) (hs : config.effectiveScale = some s) :
    ∀ {l : List (NodeId × NodeId)} {g : Graph} {stages : NodeId → List Stage},
      l.Nodup → (∀ q ∈ l, q ∈ g₀.inputs) → Preprocessed g₀ g stages → (∀ q ∈ l, stages q.2 = []) →
      (Pass.rewriteAll Pass.scaleMatch config (l.map inputMatch)).runOn g = (.ok (), g') →
      ∀ q ∈ l, g₀.consumers q.2 ≠ []
  | [], _, _, _, _, _, _, _ => by simp
  | q :: l, g, stages, hnodup, hl, pre, hnone, run => by
    rw [List.nodup_cons] at hnodup
    obtain ⟨hp, hq⟩ := (mem_inputs alt₀).1 (hl q List.mem_cons_self)
    obtain ⟨d, hd⟩ := single q.1 hp
    rw [hd, List.mem_singleton] at hq
    subst hq
    have hconsumers : g.consumers q.2 = g₀.consumers q.2 := by
      obtain ⟨last, hchain, hlast⟩ := pre.chains q.1 hp q.2 (by simp [hd])
      rw [hnone q List.mem_cons_self] at hchain
      obtain rfl : q.2 = last := hchain
      exact hlast
    rw [List.map_cons, Pass.rewriteAll_cons (isLive_inputMatch pre alt₀ hp (by simp [hd]))] at run
    have hread := consumers_ne_nil_of_scaleMatch pre hs hp run
    obtain ⟨n, g₁, hstep, -, hpre⟩ := scaleMatch_runOn pre alt₀ hs hp (by rw [hd]; rfl) hread
    rw [Edit.runOn_bind_ok hstep] at run
    refine List.forall_mem_cons.2 ⟨hconsumers ▸ hread, ?_⟩
    refine consumers_ne_nil_of_rewriteAll alt₀ c₀ single hs hnodup.2
      (fun r hr => hl r (List.mem_cons_of_mem _ hr)) hpre (fun r hr => ?_) run
    have hne : r.2 ≠ q.2 := by
      intro heq
      obtain ⟨hpr, hqr⟩ := (mem_inputs alt₀).1 (hl r (List.mem_cons_of_mem _ hr))
      have hparam := c₀.producer_unique alt₀ hpr hqr (by rw [heq, hd]; simp : r.2 ∈ g₀.outNodes q.1)
      exact hnodup.1 (Prod.ext hparam heq ▸ hr)
    rw [Function.update_of_ne hne]
    exact hnone r (List.mem_cons_of_mem _ hr)

/-- The first pass succeeds if and only if every tensor to be scaled is read. -/
theorem scaleInput_runOn (h : g.WellFormed) (alt : g.Alternating) (c : g.Consistent)
    (single : g.SingleOutputs) (config : RunConfig) :
    ∃ r g', (Pass.scaleInput.apply config).runOn g = (r, g') ∧
      (r = .ok () ↔ config.effectiveScale = none ∨
        ∀ p ∈ g.opsOfType OpType.parameter, ∀ d ∈ g.outNodes p, g.consumers d ≠ []) ∧
      (r = .ok () → ∃ stages, Preprocessed g g' stages ∧
        ∀ p ∈ g.opsOfType OpType.parameter, ∀ d ∈ g.outNodes p,
          stages d = config.globalStages) := by
  have pre : Preprocessed g g fun _ => [] := .refl h alt c
  rw [scaleInput_apply]
  rcases hs : config.effectiveScale with _ | s
  · refine ⟨.ok (), g, rewriteAll_scaleMatch_runOn_of_none hs g _, by simp, fun _ => ⟨_, pre, ?_⟩⟩
    simp [RunConfig.globalStages, hs]
  · rcases hrun : (Pass.rewriteAll Pass.scaleMatch config (g.inputs.map inputMatch)).runOn g
      with ⟨r, g'⟩
    refine ⟨r, g', rfl, ?_, ?_⟩
    · constructor
      · rintro rfl
        refine .inr fun p hp d hd => ?_
        exact consumers_ne_nil_of_rewriteAll alt c single hs (nodup_inputs g) (fun _ => id) pre
          (fun _ _ => rfl) hrun (p, d) ((mem_inputs alt).2 ⟨hp, hd⟩)
      · rintro (hnone | hread)
        · simp at hnone
        · obtain ⟨g₁, run⟩ := exists_rewriteAll_scaleMatch_runOn alt hs pre (fun _ => id)
            fun q hq => hread q.1 ((mem_inputs alt).1 hq).1 q.2 ((mem_inputs alt).1 hq).2
          rw [run] at hrun
          exact (Prod.mk.inj hrun).1.symm
    · rintro rfl
      refine ⟨_, (rewriteAll_scaleMatch_runOn alt hs pre (fun _ => id) hrun).1, fun p hp d hd => ?_⟩
      obtain ⟨b, hout⟩ := single p hp
      rw [hout, List.mem_singleton] at hd
      rw [rewritesAt_inputs_of_head c alt hp (by rw [hout, hd]; rfl), hout]
      simp [RunConfig.globalStages, hs, globalStage]

end Graph

/-! ## Runs -/

namespace Pipeline

variable {g g' : Graph} {config : RunConfig} {pass : Pass}

theorem runPass_runOn (run : (pass.apply config).runOn g = (.ok (), g')) (c : g'.Consistent) :
    (runPass config pass).runOn g = (.ok (), g') := by
  have hstep : Edit.runOn ((pass.apply config).adapt (PipelineError.passFailed pass.name)) g =
      (.ok (), g') := by
    rw [Edit.runOn_adapt, run]
    rfl
  rw [runPass]
  refine (Edit.runOn_bind_ok hstep _).trans ?_
  rw [Edit.runOn_get_bind, Graph.validate_eq_ok_iff.2 c]
  rfl

theorem runPass_runOn_error {e : PassError} (run : (pass.apply config).runOn g = (.error e, g')) :
    (runPass config pass).runOn g = (.error (.passFailed pass.name e), g') := by
  have hstep : Edit.runOn ((pass.apply config).adapt (PipelineError.passFailed pass.name)) g =
      (.error (.passFailed pass.name e), g') := by
    rw [Edit.runOn_adapt, run]
    rfl
  exact Edit.runOn_bind_error hstep _

theorem standard_order : standard.order = .ok
    ["PreMiddleStart", "ScaleInput", "AddMeanScaleValues", "MiddleStart", "MiddleFinish"] := by
  cbv

/-- What a run of all passes of the middle stage reports. -/
def standardReport (nodesBefore nodesAfter : Nat) : RunReport where
  passesRun := ["PreMiddleStart", "ScaleInput", "AddMeanScaleValues", "MiddleStart", "MiddleFinish"]
  passesSkipped := []
  nodesBefore
  nodesAfter

theorem standard_run_eq (config : RunConfig) : standard.run config = do
    let nodesBefore := (← get).nodeCount
    let passes : List Pass :=
      [.preMiddleStart, .scaleInput, .addMeanScaleValues, .middleStart, .middleFinish]
    passes.forM (runPass config)
    return standardReport nodesBefore (← get).nodeCount := by
  rw [run, standard_order]
  rfl

section Steps

variable {g₁ g₂ : Graph} {e : PassError}

theorem standard_runOn_of_scaleInput_error (c : g.Consistent)
    (run : (Pass.scaleInput.apply config).runOn g = (.error e, g₁)) :
    (standard.run config).runOn g = (.error (.passFailed Pass.scaleInput.name e), g₁) := by
  have hstart : (runPass config .preMiddleStart).runOn g = (.ok (), g) := runPass_runOn rfl c
  rw [standard_run_eq, Edit.runOn_get_bind]
  refine Edit.runOn_bind_error ((Edit.runOn_bind_ok hstart _).trans ?_) _
  exact Edit.runOn_bind_error (runPass_runOn_error run) _

theorem standard_runOn_of_addMeanScaleValues_error (c : g.Consistent)
    (run₁ : (Pass.scaleInput.apply config).runOn g = (.ok (), g₁)) (c₁ : g₁.Consistent)
    (run₂ : (Pass.addMeanScaleValues.apply config).runOn g₁ = (.error e, g₂)) :
    (standard.run config).runOn g = (.error (.passFailed Pass.addMeanScaleValues.name e), g₂) := by
  have hstart : (runPass config .preMiddleStart).runOn g = (.ok (), g) := runPass_runOn rfl c
  have hscale := runPass_runOn run₁ c₁
  rw [standard_run_eq, Edit.runOn_get_bind]
  refine Edit.runOn_bind_error ((Edit.runOn_bind_ok hstart _).trans ?_) _
  exact (Edit.runOn_bind_ok hscale _).trans (Edit.runOn_bind_error (runPass_runOn_error run₂) _)

theorem standard_runOn (c : g.Consistent)
    (run₁ : (Pass.scaleInput.apply config).runOn g = (.ok (), g₁)) (c₁ : g₁.Consistent)
    (run₂ : (Pass.addMeanScaleValues.apply config).runOn g₁ = (.ok (), g₂)) (c₂ : g₂.Consistent) :
    (standard.run config).runOn g = (.ok (standardReport g.nodeCount g₂.nodeCount), g₂) := by
  have hstart : (runPass config .preMiddleStart).runOn g = (.ok (), g) := runPass_runOn rfl c
  have hscale := runPass_runOn run₁ c₁
  have hnormal := runPass_runOn run₂ c₂
  have hmiddle : (runPass config .middleStart).runOn g₂ = (.ok (), g₂) := runPass_runOn rfl c₂
  have hfinish : (runPass config .middleFinish).runOn g₂ = (.ok (), g₂) := runPass_runOn rfl c₂
  have hpasses : Edit.runOn (([.preMiddleStart, .scaleInput, .addMeanScaleValues, .middleStart,
      .middleFinish] : List Pass).forM (runPass config)) g = (.ok ⟨⟩, g₂) := by
    refine (Edit.runOn_bind_ok hstart _).trans ?_
    refine (Edit.runOn_bind_ok hscale _).trans ?_
    refine (Edit.runOn_bind_ok hnormal _).trans ?_
    exact (Edit.runOn_bind_ok hmiddle _).trans (Edit.runOn_bind_ok hfinish _)
  rw [standard_run_eq, Edit.runOn_get_bind]
  exact (Edit.runOn_bind_ok hpasses _).trans (Edit.runOn_get_bind _)

end Steps

/-- The middle stage succeeds if and only if every tensor to be scaled is read and every configured
name is that of a parameter. Then each input is led through its mean, its scale and the scale of all
inputs, in this order and as far as they are there, to what read it before. Inputs are looked up in
the index of names, which has to be that of the nodes (`Graph.WellFormed`): this is not about graphs
with a node that was renamed in place. -/
theorem standard_run (h : g.WellFormed) (alt : g.Alternating) (valid : g.validate = .ok ())
    (single : g.SingleOutputs) (config : RunConfig) (keys : (config.inputs.map Prod.fst).Nodup) :
    ∃ r g', (standard.run config).runOn g = (r, g') ∧
      (r.isOk ↔
        (config.effectiveScale = none ∨
          ∀ p ∈ g.opsOfType OpType.parameter, ∀ d ∈ g.outNodes p, g.consumers d ≠ []) ∧
        ∀ input ∈ config.inputs, ∃ p, g.IsParameter input.1 p) ∧
      (r.isOk → ∀ name p, g.IsParameter name p → ∀ d ∈ g.outNodes p, ∃ last,
        Graph.Chain g g' d (Graph.stagesOf config.inputs name ++ config.globalStages) last ∧
        g'.consumers last = g.consumers d ∧
        ∀ (T : Type) (compute : String → T → List Float → T) (value : NodeId → T),
          g'.Respects compute value →
          value last = (Graph.stagesOf config.inputs name ++ config.globalStages).foldl
            (fun x stage => compute stage.type x stage.operand) (value d)) := by
  have c := Graph.validate_eq_ok_iff.1 valid
  obtain ⟨r₁, g₁, run₁, hok₁, hpre₁⟩ := Graph.scaleInput_runOn h alt c single config
  rcases r₁ with e | ⟨⟩
  · refine ⟨_, g₁, standard_runOn_of_scaleInput_error c run₁, ?_, nofun⟩
    refine iff_of_false nofun fun ⟨hread, _⟩ => ?_
    exact nomatch hok₁.2 hread
  obtain ⟨stages₁, pre₁, hstages₁⟩ := hpre₁ rfl
  obtain ⟨r₂, g₂, run₂, hok₂, hpre₂⟩ := Graph.normalizeAll_runOn h alt c single keys pre₁
  rcases r₂ with e | ⟨⟩
  · refine ⟨_, g₂,
      standard_runOn_of_addMeanScaleValues_error c run₁ pre₁.consistent run₂, ?_, nofun⟩
    refine iff_of_false nofun fun ⟨_, hnames⟩ => ?_
    exact nomatch hok₂.2 hnames
  obtain ⟨stages₂, pre₂, hstages₂⟩ := hpre₂ rfl
  refine ⟨_, g₂, standard_runOn c run₁ pre₁.consistent run₂ pre₂.consistent, ?_,
    fun _ name p hp d hd => ?_⟩
  · exact iff_of_true rfl ⟨hok₁.1 rfl, hok₂.1 rfl⟩
  · obtain ⟨last, hchain, hlast⟩ := pre₂.chains p hp.mem_opsOfType d hd
    rw [hstages₂ name p hp d hd, hstages₁ p hp.mem_opsOfType d hd] at hchain
    exact ⟨last, hchain, hlast, fun T compute value hvalue => hchain.value hvalue⟩

/-- A parameter that writes one tensor, which an operation reads. -/
def singleOutput : Graph where
  slots := [some (.ofOp "x" OpType.parameter), some (.ofData "x:0"), some (.ofOp "f" "Relu")]
  edges := [⟨1, 2, 0⟩, ⟨0, 1, 0⟩]
  names := [("f", 2), ("x:0", 1), ("x", 0)]

theorem singleOutput_run : ∃ r g',
    (standard.run
      { scale := some 2.0, inputs := [("x", { mean := some [1.0], scale := some [3.0] })] }).runOn
        singleOutput = (r, g') ∧ r.isOk ∧
      ∃ last, Graph.Chain singleOutput g' 1
        [⟨OpType.add, [-1.0]⟩, ⟨OpType.mul, [3.0]⟩, ⟨OpType.mul, [2.0]⟩] last ∧
        g'.consumers last = [(2, 0)] := by
  have hp : singleOutput.IsParameter "x" 0 := ⟨_, rfl, by decide, rfl⟩
  have hparams : singleOutput.opsOfType OpType.parameter = [0] := by decide
  have hout : singleOutput.outNodes 0 = [1] := by
    rw [Graph.outNodes, Graph.consumers_eq_singleton (c := (1, 0)) rfl]
    rfl
  have hread : singleOutput.consumers 1 = [(2, 0)] := Graph.consumers_eq_singleton rfl
  obtain ⟨r, g', run, hok, hchains⟩ := standard_run (g := singleOutput)
    (Graph.wellFormed_of_names (by decide) (by decide) (by decide) (by decide) rfl)
    (by unfold Graph.Alternating; decide) (by decide +kernel)
    (by simp [Graph.SingleOutputs, hparams, hout])
    { scale := some 2.0, inputs := [("x", { mean := some [1.0], scale := some [3.0] })] } (by simp)
  have hr : r.isOk := hok.2 ⟨.inr (by simp [hparams, hout, hread]), by simpa using ⟨0, hp⟩⟩
  obtain ⟨last, hchain, hlast, -⟩ := hchains hr "x" 0 hp 1 (by simp [hout])
  refine ⟨r, g', run, hr, last, ?_, hlast.trans hread⟩
  exact hchain

end Pipeline

end ModelIR
