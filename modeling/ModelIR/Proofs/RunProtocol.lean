import Mathlib.Data.List.Perm.Basic
import ModelIR.Proofs.ObservedRuns

/-!
# The protocol of runs

A run executes the enabled passes in an order that respects what the passes say of one another, each
at most once, and stops at the first that fails or leaves an invalid graph (`run_protocol`). The
passes are looked up by the names that the order gives, so they are the registered ones, rearranged
(`exists_inOrder`); what is executed of them is an initial part.
-/

namespace ModelIR.Pipeline

open Relation

variable {p : Pipeline} {config : RunConfig} {names : List String} {name : String} {pass : Pass}
  {passes : List Pass} {g g' : Graph} {log : List Execution}

/-! ## The order -/

theorem pass?_eq_some_iff : p.pass? name = some pass ↔ pass ∈ p.passes ∧ pass.name = name := by
  constructor
  · intro h
    exact ⟨List.mem_of_find?_eq_some h, by simpa using List.find?_some h⟩
  · rintro ⟨hpass, rfl⟩
    have hsome : (p.pass? pass.name).isSome := List.find?_isSome.2 ⟨pass, hpass, by simp⟩
    obtain ⟨other, hother⟩ := Option.isSome_iff_exists.1 hsome
    have hname : other.name = pass.name := by simpa using List.find?_some hother
    rw [hother, List.inj_on_of_nodup_map p.nodup (List.mem_of_find?_eq_some hother) hpass hname]

/-- The registered passes, in the order in which they run. -/
structure InOrder (p : Pipeline) (passes : List Pass) : Prop where
  perm : passes.Perm p.passes
  order : p.order = .ok (passes.map Pass.name)
  respects : passes.Pairwise fun a b => ¬ p.Before b.name a.name

theorem map_name_filterMap_pass? :
    ∀ {names : List String}, (∀ name ∈ names, name ∈ p.names) →
      (names.filterMap p.pass?).map Pass.name = names
  | [], _ => rfl
  | name :: names, h => by
    obtain ⟨hname, hnames⟩ := List.forall_mem_cons.1 h
    obtain ⟨pass, hpass, rfl⟩ := List.mem_map.1 hname
    rw [List.filterMap_cons_some (pass?_eq_some_iff.2 ⟨hpass, rfl⟩), List.map_cons,
      map_name_filterMap_pass? hnames]

theorem filterMap_pass?_names (p : Pipeline) : p.names.filterMap p.pass? = p.passes := by
  rw [names, List.filterMap_map]
  calc p.passes.filterMap (p.pass? ∘ Pass.name) = p.passes.filterMap some :=
        List.filterMap_congr fun pass hpass => pass?_eq_some_iff.2 ⟨hpass, rfl⟩
    _ = p.passes := List.filterMap_some

theorem exists_inOrder (h : p.order = .ok names) : p.InOrder (names.filterMap p.pass?) := by
  obtain ⟨hperm, hlt, -⟩ := of_order_ok h
  have hnames := map_name_filterMap_pass? fun name hname => hperm.mem_iff.1 hname
  refine ⟨?_, by rw [h, hnames], ?_⟩
  · rw [← p.filterMap_pass?_names]
    exact hperm.filterMap _
  · have hnodup : names.Nodup := hperm.nodup_iff.2 p.nodup
    rw [← List.pairwise_map (R := fun a b => ¬ p.Before b a), hnames, List.pairwise_iff_getElem]
    intro i j hi hj hij hbefore
    have := hlt _ _ hbefore
    rw [hnodup.idxOf_getElem, hnodup.idxOf_getElem] at this
    omega

/-! ## Runs -/

/-- What a run over passes reports that finds a graph and leaves another one. -/
def reportOf (passes : List Pass) (g g' : Graph) : RunReport where
  passesRun := (passes.filter Pass.enabled).map Pass.name
  passesSkipped := (passes.filter (! ·.enabled)).map Pass.name
  nodesBefore := g.nodeCount
  nodesAfter := g'.nodeCount

section Runs

variable {σ : Type} {o : Observer σ} {s s' : σ} {r : Except PipelineError Unit}

theorem runWith_run_of_order_error {e : PipelineError} (h : p.order = .error e) :
    (p.runWith o config).run.run s = (.error e, s) := by
  rw [runWith, h]
  rfl

theorem runWith_run_of_order_ok (h : p.order = .ok names)
    (run : (((names.filterMap p.pass?).filter Pass.enabled).forM (runPassWith o config)).run.run s =
      (r, s')) :
    (p.runWith o config).run.run s =
      (r.map fun _ => reportOf (names.filterMap p.pass?) (o.graph s) (o.graph s'), s') := by
  have horder : (ExceptT.mk (pure p.order) :
      ExceptT PipelineError (StateM σ) (List String)).run.run s = (.ok names, s) := by
    rw [h]
    rfl
  rw [runWith, run_bind_ok horder, run_get_bind, List.partition_eq_filter_filter]
  rcases r with e | ⟨⟩
  · rw [run_bind_error run]
    rfl
  · rw [run_bind_ok run]
    rfl

end Runs

/-! ## The protocol -/

/-- The last execution is the first in the order of passes that has a fault, no later pass is
executed, and the graph is the one that it left. -/
structure StoppedAt (p : Pipeline) (log : List Execution) (x : Execution) (g' : Graph) : Prop where
  order : ∃ passes rest, p.InOrder passes ∧
    passes.filter Pass.enabled = log.map Execution.pass ++ rest
  last : ∃ before, log = before ++ [x] ∧
    ∀ y ∈ before, y.result = .ok () ∧ y.left.validate = .ok ()
  left : x.left = g'

/-- What a run executes, comes to and leaves. -/
structure Protocol (p : Pipeline) (config : RunConfig) (g : Graph) (log : List Execution)
    (r : Except PipelineError RunReport) (g' : Graph) : Prop where
  executed : ∀ x ∈ log, x = .of config x.pass x.given ∧ x.pass ∈ p.passes ∧ x.pass.enabled
  linked : Linked g log g'
  once : (log.map (·.pass.name)).Nodup
  follows : ∀ before x after, log = before ++ x :: after → ∀ q ∈ p.passes, q.enabled →
    p.Before q.name x.pass.name → ∃ y ∈ before, y.pass = q
  valid : ∀ x ∈ log.tail, x.given.validate = .ok ()
  ok_iff : r.isOk ↔ (∀ a, ¬ TransGen p.Before a a) ∧ ∀ q ∈ p.passes, q.enabled →
    ∃ x ∈ log, x.pass = q ∧ x.result = .ok () ∧ x.left.validate = .ok ()
  report : ∀ report, r = .ok report → ∃ passes, p.InOrder passes ∧ report = reportOf passes g g'
  passFailed : ∀ name e, r = .error (.passFailed name e) →
    ∃ x, p.StoppedAt log x g' ∧ x.pass.name = name ∧ x.result = .error e
  inconsistentGraph : ∀ name e, r = .error (.inconsistentGraph name e) →
    ∃ x, p.StoppedAt log x g' ∧ x.pass.name = name ∧ x.result = .ok () ∧ x.left.validate = .error e
  orderingCycle : ∀ name, r = .error (.orderingCycle name) →
    name ∈ p.names ∧ TransGen p.Before name name ∧ log = [] ∧ g' = g
  duplicatePass : ∀ name, r ≠ .error (.duplicatePass name)

theorem protocol_of_order_error {e : PipelineError} (h : p.order = .error e) (config : RunConfig)
    (g : Graph) : p.Protocol config g [] (.error e) g := by
  obtain ⟨a, ha, rfl, hcycle⟩ := of_order_error h
  exact {
    executed := by simp
    linked := rfl
    once := .nil
    follows := by simp
    valid := by simp
    ok_iff := iff_of_false (by simp [Except.isOk, Except.toBool]) fun hok => hok.1 a hcycle
    report := nofun
    passFailed := nofun
    inconsistentGraph := nofun
    orderingCycle := by
      rintro _ ⟨⟩
      exact ⟨ha, hcycle, rfl, rfl⟩
    duplicatePass := nofun }

section Traced

variable {r : Except PipelineError Unit} (ordered : p.InOrder passes)
  (t : Trace config (passes.filter Pass.enabled) g log r g')

include ordered

theorem InOrder.mem_enabled_iff :
    pass ∈ passes.filter Pass.enabled ↔ pass ∈ p.passes ∧ pass.enabled := by
  rw [List.mem_filter, ordered.perm.mem_iff]

theorem InOrder.nodup_enabled : ((passes.filter Pass.enabled).map Pass.name).Nodup :=
  ((ordered.perm.map Pass.name).nodup_iff.2 p.nodup).sublist (List.filter_sublist.map _)

include t

theorem Trace.executed :
    ∀ x ∈ log, x = .of config x.pass x.given ∧ x.pass ∈ p.passes ∧ x.pass.enabled := by
  intro x hx
  refine ⟨t.eq_of x hx, ordered.mem_enabled_iff.1 ?_⟩
  exact t.passes_prefix.subset (List.mem_map_of_mem hx)

theorem Trace.once : (log.map (·.pass.name)).Nodup := by
  have hsublist := t.passes_prefix.sublist.map Pass.name
  rw [List.map_map] at hsublist
  exact ordered.nodup_enabled.sublist hsublist

theorem Trace.follows {before after : List Execution} {x : Execution} {q : Pass}
    (hlog : log = before ++ x :: after) (hq : q ∈ p.passes) (enabled : q.enabled)
    (hbefore : p.Before q.name x.pass.name) : ∃ y ∈ before, y.pass = q := by
  obtain ⟨rest, hrest⟩ := t.passes_prefix
  rw [hlog, List.map_append, List.map_cons, List.append_assoc, List.cons_append] at hrest
  have hpairwise := ordered.respects.filter Pass.enabled
  rw [← hrest, List.pairwise_append, List.pairwise_cons] at hpairwise
  have hmem := ordered.mem_enabled_iff.2 ⟨hq, enabled⟩
  rw [← hrest, List.mem_append, List.mem_cons] at hmem
  rcases hmem with hmem | rfl | hmem
  · exact List.mem_map.1 hmem
  · obtain ⟨-, hlt, -⟩ := of_order_ok ordered.order
    exact absurd (hlt _ _ hbefore) (Nat.lt_irrefl _)
  · exact absurd hbefore (hpairwise.2.1.1 q hmem)

/-- A run succeeds if every enabled pass was executed well. No pass is executed twice, so that no
other execution of it can have failed. -/
theorem Trace.ok_iff : r = .ok () ↔ ∀ q ∈ p.passes, q.enabled →
    ∃ x ∈ log, x.pass = q ∧ x.result = .ok () ∧ x.left.validate = .ok () := by
  constructor
  · intro hr q hq enabled
    obtain ⟨hall, hsound⟩ := t.of_ok hr
    have hmem := ordered.mem_enabled_iff.2 ⟨hq, enabled⟩
    rw [← hall] at hmem
    obtain ⟨x, hx, rfl⟩ := List.mem_map.1 hmem
    exact ⟨x, hx, rfl, Execution.fault?_eq_none_iff.1 (hsound x hx)⟩
  · intro hall
    rcases hr : r with e | ⟨⟩
    swap
    · rfl
    obtain ⟨before, x, hlog, hsound, hfault, -⟩ := t.of_error hr
    have hx : x ∈ log := by simp [hlog]
    obtain ⟨-, hmem, enabled⟩ := t.executed ordered x hx
    obtain ⟨y, hy, hpass, hfine⟩ := hall x.pass hmem enabled
    have hxy : y = x := List.inj_on_of_nodup_map (t.once ordered) hy hx (by rw [hpass])
    rw [hxy, ← Execution.fault?_eq_none_iff, hfault] at hfine
    exact nomatch hfine

theorem Trace.stoppedAt {e : PipelineError} (hr : r = .error e) :
    ∃ x, p.StoppedAt log x g' ∧ x.fault? = some e := by
  obtain ⟨before, x, hlog, hsound, hfault, hleft⟩ := t.of_error hr
  obtain ⟨rest, hrest⟩ := t.passes_prefix
  refine ⟨x, ⟨⟨passes, rest, ordered, hrest.symm⟩, ⟨before, hlog, fun y hy => ?_⟩, hleft⟩, hfault⟩
  exact Execution.fault?_eq_none_iff.1 (hsound y hy)

end Traced

theorem protocol_of_trace {r : Except PipelineError Unit} (ordered : p.InOrder passes)
    (t : Trace config (passes.filter Pass.enabled) g log r g') :
    p.Protocol config g log (r.map fun _ => reportOf passes g g') g' := by
  have hacyclic := (of_order_ok ordered.order).2.2
  have herror : ∀ e, (r.map fun _ => reportOf passes g g') = .error e → r = .error e := by
    rintro e hr
    rcases r with e' | ⟨⟩
    · exact congrArg _ (Except.error.inj hr)
    · exact nomatch hr
  exact {
    executed := t.executed ordered
    linked := t.linked
    once := t.once ordered
    follows := fun _ _ _ hlog _ hq enabled => t.follows ordered hlog hq enabled
    valid := t.valid_tail
    ok_iff := by
      rw [and_iff_right hacyclic, ← t.ok_iff ordered]
      rcases r with e | ⟨⟩ <;> simp [Except.map, Except.isOk, Except.toBool]
    report := fun report hr => by
      rcases r with e | ⟨⟩
      · exact nomatch hr
      · exact ⟨passes, ordered, (Except.ok.inj hr).symm⟩
    passFailed := fun name e hr => by
      obtain ⟨x, hx, hfault⟩ := t.stoppedAt ordered (herror _ hr)
      exact ⟨x, hx, Execution.fault?_eq_passFailed_iff.1 hfault⟩
    inconsistentGraph := fun name e hr => by
      obtain ⟨x, hx, hfault⟩ := t.stoppedAt ordered (herror _ hr)
      exact ⟨x, hx, Execution.fault?_eq_inconsistentGraph_iff.1 hfault⟩
    orderingCycle := fun name hr => by
      obtain ⟨x, -, hfault⟩ := t.stoppedAt ordered (herror _ hr)
      rcases Execution.eq_of_fault?_eq_some hfault with ⟨_, he⟩ | ⟨_, he⟩ <;> exact nomatch he
    duplicatePass := fun name hr => by
      obtain ⟨x, -, hfault⟩ := t.stoppedAt ordered (herror _ hr)
      rcases Execution.eq_of_fault?_eq_some hfault with ⟨_, he⟩ | ⟨_, he⟩ <;> exact nomatch he }

/-- A run of a pipeline, however it was built and whatever its passes do, keeps to the protocol, and
it does the same when what it executes is logged. -/
theorem run_protocol (p : Pipeline) (config : RunConfig) (g : Graph) : ∃ r g' log,
    (p.run config).runOn g = (r, g') ∧ p.observedRun config g = (r, g', log) ∧
      p.Protocol config g log r g' := by
  rw [run_eq_runWith, observedRun, Edit.runOn]
  rcases horder : p.order with e | names
  · exact ⟨.error e, g, [], runWith_run_of_order_error horder, runWith_run_of_order_error horder,
      protocol_of_order_error horder config g⟩
  · obtain ⟨log, r, g', t, hseen⟩ :=
      exists_trace config ((names.filterMap p.pass?).filter Pass.enabled) g
    obtain ⟨hplain, hleft⟩ := hseen .plain g rfl
    obtain ⟨hlogging, hleft'⟩ := hseen .logging (g, []) rfl
    have hstate : log.foldl Observer.logging.note (g, []) = (g', log) :=
      Prod.ext hleft' (Observer.foldl_note_logging log _)
    refine ⟨_, g', log, ?_, ?_, protocol_of_trace (exists_inOrder horder) t⟩
    · change log.foldl Observer.plain.note g = g' at hleft
      rw [runWith_run_of_order_ok horder hplain, hleft]
      rfl
    · rw [runWith_run_of_order_ok horder hlogging, hstate]
      rfl

end ModelIR.Pipeline
