import ModelIR.Proofs.EditRun
import ModelIR.Proofs.PassOrder

/-!
# Observed runs

To see which passes a run executes, the run is told apart from the state that it keeps: an observer
shows the graph and takes note of every execution (`runWith`). One that keeps only the graph makes
it the run itself (`run_eq_runWith`), and one that also keeps a log tells what was executed
(`observedRun`). All of them see the same executions, and these end with the first one that fails or
leaves an invalid graph (`exists_trace`).
-/

namespace ModelIR

/-- What a pass was given, what it came to and what it left. -/
structure Execution where
  pass : Pass
  given : Graph
  result : Except PassError Unit
  left : Graph

namespace Execution

/-- The execution of a pass on a graph. -/
def of (config : RunConfig) (pass : Pass) (g : Graph) : Execution where
  pass
  given := g
  result := ((pass.apply config).runOn g).1
  left := ((pass.apply config).runOn g).2

/-- The error of a run that ends with the execution; there is none if the pass succeeded and left a
valid graph. -/
def fault? (x : Execution) : Option PipelineError :=
  match x.result, x.left.validate with
  | .error e, _ => some (.passFailed x.pass.name e)
  | .ok (), .error e => some (.inconsistentGraph x.pass.name e)
  | .ok (), .ok () => none

theorem fault?_eq_none_iff {x : Execution} :
    x.fault? = none ↔ x.result = .ok () ∧ x.left.validate = .ok () := by
  unfold fault?
  rcases x.result with e | ⟨⟩ <;> rcases x.left.validate with e' | ⟨⟩ <;> simp

theorem fault?_eq_passFailed_iff {x : Execution} {name : String} {e : PassError} :
    x.fault? = some (.passFailed name e) ↔ x.pass.name = name ∧ x.result = .error e := by
  unfold fault?
  rcases x.result with e | ⟨⟩ <;> rcases x.left.validate with e' | ⟨⟩ <;> simp

theorem fault?_eq_inconsistentGraph_iff {x : Execution} {name : String} {e : GraphError} :
    x.fault? = some (.inconsistentGraph name e) ↔
      x.pass.name = name ∧ x.result = .ok () ∧ x.left.validate = .error e := by
  unfold fault?
  rcases x.result with e | ⟨⟩ <;> rcases x.left.validate with e' | ⟨⟩ <;> simp

theorem eq_of_fault?_eq_some {x : Execution} {e : PipelineError} (h : x.fault? = some e) :
    (∃ e', e = .passFailed x.pass.name e') ∨ ∃ e', e = .inconsistentGraph x.pass.name e' := by
  unfold fault? at h
  split at h
  · exact .inl ⟨_, (Option.some.inj h).symm⟩
  · exact .inr ⟨_, (Option.some.inj h).symm⟩
  · exact nomatch h

end Execution

/-- Keeps a state that shows the graph, and takes note of executions. -/
structure Observer (σ : Type) where
  graph : σ → Graph
  note : σ → Execution → σ
  graph_note : ∀ s x, graph (note s x) = x.left

namespace Observer

/-- Keeps nothing but the graph. -/
def plain : Observer Graph where
  graph := id
  note _ x := x.left
  graph_note _ _ := rfl

/-- Keeps a log beside the graph. -/
def logging : Observer (Graph × List Execution) where
  graph := Prod.fst
  note s x := (x.left, s.2 ++ [x])
  graph_note _ _ := rfl

theorem foldl_note_logging : ∀ (log : List Execution) (s : Graph × List Execution),
    (log.foldl logging.note s).2 = s.2 ++ log
  | [], s => (List.append_nil s.2).symm
  | x :: log, s => by
    rw [List.foldl_cons, foldl_note_logging log]
    exact List.append_assoc s.2 [x] log

variable {σ : Type} (o : Observer σ)

/-- Applies a pass to the graph that is shown, and takes note of it. -/
def apply (config : RunConfig) (pass : Pass) : ExceptT PassError (StateM σ) Unit :=
  ExceptT.mk <| modifyGet fun s =>
    ((Execution.of config pass (o.graph s)).result, o.note s (.of config pass (o.graph s)))

end Observer

namespace Pipeline

variable {σ : Type} {p : Pipeline} {config : RunConfig} {pass : Pass} {passes : List Pass}
  {g g' : Graph} {log : List Execution} {r : Except PipelineError Unit}

/-- Applies one pass before an observer, and checks the graph that it leaves. -/
def runPassWith (o : Observer σ) (config : RunConfig) (pass : Pass) :
    ExceptT PipelineError (StateM σ) Unit := do
  (o.apply config pass).adapt (.passFailed pass.name)
  match (o.graph (← get)).validate with
  | .ok () => return
  | .error e => throw (.inconsistentGraph pass.name e)

/-- The run of a pipeline before an observer. -/
def runWith (p : Pipeline) (o : Observer σ) (config : RunConfig) :
    ExceptT PipelineError (StateM σ) RunReport := do
  let passes := (← ExceptT.mk (pure p.order)).filterMap p.pass?
  let nodesBefore := (o.graph (← get)).nodeCount
  let (enabled, disabled) := passes.partition Pass.enabled
  enabled.forM (runPassWith o config)
  return {
    passesRun := enabled.map Pass.name
    passesSkipped := disabled.map Pass.name
    nodesBefore
    nodesAfter := (o.graph (← get)).nodeCount }

theorem run_eq_runWith (p : Pipeline) (config : RunConfig) :
    p.run config = p.runWith .plain config :=
  rfl

/-- What a run comes to, the graph that it leaves and what it executes. -/
def observedRun (p : Pipeline) (config : RunConfig) (g : Graph) :
    Except PipelineError RunReport × Graph × List Execution :=
  (p.runWith .logging config).run.run (g, [])

theorem runPassWith_run (o : Observer σ) (config : RunConfig) (pass : Pass) (s : σ) :
    (runPassWith o config pass).run.run s =
      ((Execution.of config pass (o.graph s)).fault?.elim (.ok ()) .error,
        o.note s (.of config pass (o.graph s))) := by
  generalize hx : Execution.of config pass (o.graph s) = x
  have hname : x.pass.name = pass.name := by rw [← hx, Execution.of]
  have hstep : StateT.run (ExceptT.run
      ((o.apply config pass).adapt (PipelineError.passFailed pass.name))) s =
      (x.result.mapError (.passFailed pass.name), o.note s x) := by
    rw [← hx]
    rfl
  unfold Execution.fault?
  rw [runPassWith]
  rcases hresult : x.result with e | ⟨⟩ <;> rw [hresult] at hstep
  · rw [run_bind_error hstep, hname]
    rfl
  · rw [run_bind_ok hstep, run_get_bind, o.graph_note, hname]
    rcases x.left.validate with e | ⟨⟩ <;> rfl

/-! ## Traces -/

/-- The executions of passes on a graph: they go on until one has a fault. -/
inductive Trace (config : RunConfig) :
    List Pass → Graph → List Execution → Except PipelineError Unit → Graph → Prop
  | done {g : Graph} : Trace config [] g [] (.ok ()) g
  | stop {pass : Pass} {passes : List Pass} {g : Graph} {e : PipelineError}
      (fault : (Execution.of config pass g).fault? = some e) :
      Trace config (pass :: passes) g [.of config pass g] (.error e)
        (Execution.of config pass g).left
  | step {pass : Pass} {passes : List Pass} {g g' : Graph} {log : List Execution}
      {r : Except PipelineError Unit} (sound : (Execution.of config pass g).fault? = none)
      (rest : Trace config passes (Execution.of config pass g).left log r g') :
      Trace config (pass :: passes) g (.of config pass g :: log) r g'

/-- Whoever observes passes that are applied one after the other sees the same executions. -/
theorem exists_trace (config : RunConfig) : ∀ (passes : List Pass) (g : Graph), ∃ log r g',
    Trace config passes g log r g' ∧
      ∀ {σ : Type} (o : Observer σ) (s : σ), o.graph s = g →
        (passes.forM (runPassWith o config)).run.run s = (r, log.foldl o.note s) ∧
          o.graph (log.foldl o.note s) = g'
  | [], g => ⟨[], .ok (), g, .done, fun _ _ hs => ⟨rfl, hs⟩⟩
  | pass :: passes, g => by
    rcases hfault : (Execution.of config pass g).fault? with _ | e
    · obtain ⟨log, r, g', htrace, hseen⟩ :=
        exists_trace config passes (Execution.of config pass g).left
      refine ⟨_, r, g', .step hfault htrace, fun o s hs => ?_⟩
      subst hs
      have hstep := runPassWith_run o config pass s
      rw [hfault] at hstep
      obtain ⟨hrun, hleft⟩ := hseen o _ (o.graph_note _ _)
      exact ⟨(run_bind_ok hstep _).trans hrun, hleft⟩
    · refine ⟨_, _, _, .stop hfault, fun o s hs => ?_⟩
      subst hs
      have hstep := runPassWith_run o config pass s
      rw [hfault] at hstep
      exact ⟨run_bind_error hstep _, o.graph_note _ _⟩

/-- Each execution is given what the one before it left. -/
def Linked : Graph → List Execution → Graph → Prop
  | g, [], g' => g' = g
  | g, x :: log, g' => x.given = g ∧ Linked x.left log g'

namespace Trace

theorem passes_prefix (t : Trace config passes g log r g') : log.map Execution.pass <+: passes := by
  induction t with
  | done => exact List.prefix_rfl
  | stop => exact List.cons_prefix_cons.2 ⟨rfl, List.nil_prefix⟩
  | step _ _ ih => exact List.cons_prefix_cons.2 ⟨rfl, ih⟩

theorem eq_of (t : Trace config passes g log r g') : ∀ x ∈ log, x = .of config x.pass x.given := by
  induction t with
  | done => simp
  | stop => simp [Execution.of]
  | step _ _ ih => exact List.forall_mem_cons.2 ⟨rfl, ih⟩

theorem linked (t : Trace config passes g log r g') : Linked g log g' := by
  induction t with
  | done => rfl
  | stop => exact ⟨rfl, rfl⟩
  | step _ _ ih => exact ⟨rfl, ih⟩

theorem valid_of_valid (t : Trace config passes g log r g') (valid : g.validate = .ok ()) :
    ∀ x ∈ log, x.given.validate = .ok () := by
  induction t with
  | done => simp
  | stop => exact List.forall_mem_singleton.2 valid
  | step sound _ ih =>
    exact List.forall_mem_cons.2 ⟨valid, ih (Execution.fault?_eq_none_iff.1 sound).2⟩

/-- Only the first pass can be given an invalid graph. -/
theorem valid_tail (t : Trace config passes g log r g') :
    ∀ x ∈ log.tail, x.given.validate = .ok () := by
  cases t with
  | done => simp
  | stop => simp
  | step sound rest => exact rest.valid_of_valid (Execution.fault?_eq_none_iff.1 sound).2

theorem of_ok (t : Trace config passes g log r g') (hr : r = .ok ()) :
    log.map Execution.pass = passes ∧ ∀ x ∈ log, x.fault? = none := by
  induction t with
  | done => simp
  | stop => exact nomatch hr
  | step sound _ ih =>
    obtain ⟨hall, hsound⟩ := ih hr
    exact ⟨congrArg _ hall, List.forall_mem_cons.2 ⟨sound, hsound⟩⟩

/-- An error is that of the last execution, which is the only one with a fault. -/
theorem of_error {e : PipelineError} (t : Trace config passes g log r g') (hr : r = .error e) :
    ∃ before x, log = before ++ [x] ∧ (∀ y ∈ before, y.fault? = none) ∧ x.fault? = some e ∧
      x.left = g' := by
  induction t with
  | done => exact nomatch hr
  | stop fault =>
    obtain rfl := Except.error.inj hr
    exact ⟨[], _, rfl, by simp, fault, rfl⟩
  | step sound _ ih =>
    obtain ⟨before, x, rfl, hbefore, hx⟩ := ih hr
    exact ⟨_ :: before, x, rfl, List.forall_mem_cons.2 ⟨sound, hbefore⟩, hx⟩

end Trace

end Pipeline

end ModelIR
