import Mathlib.Data.List.Induction
import ModelIR.Proofs.GraphCalls

/-!
# What edges join

Operations and tensors are to alternate along the edges of a graph. `connect` sees to it, but the
consumers of a node may be moved over to any other node, and where that one is of the other kind the
edges that are moved join two nodes of one kind (`Crosses`). No other call makes such an edge
(`alternating_after_iff`). The check of a graph does not look at what edges join: it counts
producers and inputs, and these it finds the same wherever consumers were moved
(`validate_moveOutgoing_iff`).
-/

namespace ModelIR.Graph

variable {g g' : Graph} {i j source target : NodeId} {node : Node} {call : Call}

/-- A sound graph in which every edge joins an operation and a tensor. -/
structure Bipartite (g : Graph) : Prop extends g.Sound where
  alternating : g.Alternating

theorem bipartite_empty : Bipartite empty where
  toSound := sound_empty
  alternating := nofun

/-! ## Calls that keep what edges join -/

theorem Alternating.of_kept (alt : g.Alternating) (edges : ∀ e ∈ g'.edges, e ∈ g.edges)
    (kinds : ∀ e ∈ g'.edges, g'.kind? e.source = g.kind? e.source ∧
      g'.kind? e.target = g.kind? e.target) : g'.Alternating := by
  intro e he
  obtain ⟨hsource, htarget⟩ := kinds e he
  rw [hsource, htarget]
  exact alt e (edges e he)

theorem Bipartite.insert (h : g.Bipartite) (free : g.isFree node.name) :
    (g.insert node).2.Bipartite where
  toSound := h.toSound.insert free
  alternating := by
    have a := insert_added h.vacancies node
    refine h.alternating.of_kept (fun e he => by rwa [insert_edges] at he) fun e he => ?_
    rw [insert_edges] at he
    constructor
    · rw [kind?, a.other (h.not_source a.fresh he), kind?]
    · rw [kind?, a.other (h.not_target a.fresh he), kind?]

theorem Alternating.link {s t : Node} (alt : g.Alternating) (hs : g.node? source = some s)
    (ht : g.node? target = some t) (hk : s.kind ≠ t.kind) (port : Port) :
    (g.link source target port).Alternating := by
  intro e he
  rcases List.mem_cons.1 he with rfl | he
  · change (g.kind? source = _ ∧ g.kind? target = _) ∨ (g.kind? source = _ ∧ g.kind? target = _)
    rw [kind?, kind?, hs, ht]
    rcases hks : s.kind with _ | _ <;> rcases hkt : t.kind with _ | _ <;> simp_all
  · exact alt e he

theorem Bipartite.remove (h : g.Bipartite) (i : NodeId) : (g.remove i).2.Bipartite where
  toSound := h.toSound.remove i
  alternating := by
    rcases hi : g.node? i with _ | node
    · rw [remove_of_empty hi]
      exact h.alternating
    · have f := remove_freed hi
      refine h.alternating.of_kept (fun e he => (f.mem_edges he).1) fun e he => ?_
      obtain ⟨-, hsource, htarget⟩ := f.mem_edges he
      constructor
      · rw [kind?, f.node?, if_neg hsource, kind?]
      · rw [kind?, f.node?, if_neg htarget, kind?]

theorem kind?_modifyNode {change : Node → Node} (hkind : ∀ node, (change node).kind = node.kind)
    (i j : NodeId) : (g.modifyNode i change).kind? j = g.kind? j := by
  rw [kind?, kind?, modifyNode_node?]
  split_ifs
  · rw [Option.map_map, show Node.kind ∘ change = Node.kind from funext hkind]
  · rfl

/-! The calls that are made of others. -/

theorem Bipartite.keeps_addNode (node : Node) : Edit.Keeps Bipartite (addNode node) :=
  keeps_addNode_of fun _ h free => h.insert free

theorem Bipartite.keeps_connect (source target : NodeId) (port : Port) :
    Edit.Keeps Bipartite (connect source target port) :=
  keeps_connect_of fun _ s t h hs ht hk =>
    ⟨h.toSound.link (contains_iff.2 ⟨s, hs⟩) (contains_iff.2 ⟨t, ht⟩) port,
      h.alternating.link hs ht hk port⟩

theorem Bipartite.keeps_addConst (name : String) (values : List Float) :
    Edit.Keeps Bipartite (addConst name values) :=
  keeps_addConst_of keeps_addNode keeps_connect name values

/-! ## Moving consumers -/

/-- Consumers that are moved over read a node of the same kind as before, or there are none: both
nodes are of the kind that a consumer is not of. -/
theorem alternating_moveOutgoing_iff (alt : g.Alternating) :
    (g.moveOutgoing source target).Alternating ↔
      g.outgoing source = [] ∨ g.kind? source = g.kind? target := by
  have hkind : ∀ i, (g.moveOutgoing source target).kind? i = g.kind? i := fun _ => rfl
  have hperm := edges_moveOutgoing g source target
  constructor
  · intro moved
    rcases hout : g.outgoing source with _ | ⟨e, rest⟩
    · exact .inl rfl
    right
    obtain ⟨he, hsource⟩ := List.mem_filter.1 (hout ▸ List.mem_cons_self : e ∈ g.outgoing source)
    rw [decide_eq_true_eq] at hsource
    have hnew := moved _ (hperm.mem_iff.2 (List.mem_map_of_mem he))
    have hold := alt e he
    rw [hkind, hkind, redirect_target, redirect, if_pos hsource] at hnew
    rw [hsource] at hold
    rcases hold with ⟨hs, ht⟩ | ⟨hs, ht⟩ <;> simp [ht] at hnew <;> rw [hs, hnew]
  · intro hsame e he
    obtain ⟨e, hmem, rfl⟩ := List.mem_map.1 (hperm.mem_iff.1 he)
    have halt := alt e hmem
    rw [hkind, hkind, redirect_target]
    unfold redirect
    split_ifs with hsource
    · rcases hsame with hout | hsame
      · refine absurd (List.mem_filter.2 ⟨hmem, ?_⟩) (hout ▸ List.not_mem_nil)
        rw [decide_eq_true_eq]
        exact hsource
      · rwa [hsource, hsame] at halt
    · exact halt

theorem incoming_moveOutgoing (g : Graph) (source target j : NodeId) :
    ((g.moveOutgoing source target).incoming j).Perm
      ((g.incoming j).map (redirect source target)) := by
  have hperm := (edges_moveOutgoing g source target).filter fun e => decide (e.target = j)
  rwa [filter_target_redirect] at hperm

theorem consistent_moveOutgoing_iff :
    (g.moveOutgoing source target).Consistent ↔ g.Consistent := by
  have hlength : ∀ j, ((g.moveOutgoing source target).incoming j).length =
      (g.incoming j).length := by
    intro j
    rw [(incoming_moveOutgoing g source target j).length_eq, List.length_map]
  have hports : ∀ j, (((g.moveOutgoing source target).incoming j).map Edge.port).Perm
      ((g.incoming j).map Edge.port) := by
    intro j
    have hperm := (incoming_moveOutgoing g source target j).map Edge.port
    rwa [List.map_map, port_comp_redirect] at hperm
  constructor
  · intro c
    exact ⟨fun j hj => hlength j ▸ c.producers j hj,
      fun j hj => (hports j).nodup_iff.1 (c.ports j hj)⟩
  · intro c
    exact ⟨fun j hj => (hlength j).symm ▸ c.producers j hj,
      fun j hj => (hports j).nodup_iff.2 (c.ports j hj)⟩

/-- The check finds the same wherever consumers are moved to. -/
theorem validate_moveOutgoing_iff :
    (g.moveOutgoing source target).validate = .ok () ↔ g.validate = .ok () := by
  rw [validate_eq_ok_iff, validate_eq_ok_iff, consistent_moveOutgoing_iff]

/-! ## Calls -/

/-- A call that writes to a node leaves what the node stands for. -/
def Call.KeepsKind : Call → Prop
  | .write _ change => ∀ node, (change node).kind = node.kind
  | _ => True

/-- The call moves consumers over to a node of the other kind. -/
def Crosses (g : Graph) : Call → Prop
  | .reroute source target =>
    g.outgoing source ≠ [] ∧ g.contains target ∧ g.kind? source ≠ g.kind? target
  | _ => False

theorem after_reroute (source target : NodeId) : g.after (.reroute source target) =
    if g.contains source ∧ g.contains target then g.moveOutgoing source target else g := by
  split_ifs with h
  · rw [after, rerouteConsumers_runOn h.1 h.2]
  · rw [after, rerouteConsumers, Edit.runOn_get_bind]
    rcases hs : g.contains source with _ | _
    · rfl
    rcases ht : g.contains target with _ | _
    · rfl
    exact absurd ⟨hs, ht⟩ h

theorem WellFormed.contains_of_outgoing (h : g.WellFormed) (hout : g.outgoing source ≠ []) :
    g.contains source := by
  obtain ⟨e, he⟩ := List.exists_mem_of_ne_nil _ hout
  obtain ⟨he, hsource⟩ := List.mem_filter.1 he
  rw [decide_eq_true_eq] at hsource
  exact hsource ▸ h.source_live e he

/-- Of all calls only one that crosses makes an edge between two nodes of one kind. -/
theorem alternating_after_iff (h : g.Bipartite) (kept : call.KeepsKind) :
    (g.after call).Alternating ↔ ¬ g.Crosses call := by
  cases call with
  | addNode node => exact iff_of_true (Bipartite.keeps_addNode node g h).alternating id
  | addOp name type => exact iff_of_true (Bipartite.keeps_addNode _ g h).alternating id
  | addData name => exact iff_of_true (Bipartite.keeps_addNode _ g h).alternating id
  | addConst name values =>
    exact iff_of_true (Bipartite.keeps_addConst name values g h).alternating id
  | remove i => exact iff_of_true (h.remove i).alternating id
  | connect source target port =>
    exact iff_of_true (Bipartite.keeps_connect source target port g h).alternating id
  | write i change =>
    have hnode : ∀ node, ({ change node with name := node.name } : Node).kind = node.kind := kept
    have hkind : ∀ j, (g.after (.write i change)).kind? j = g.kind? j := kind?_modifyNode hnode i
    exact iff_of_true (h.alternating.of_kept (fun _ => id) fun e _ => ⟨hkind _, hkind _⟩) id
  | reroute source target =>
    rw [after_reroute, Crosses]
    split_ifs with hlive
    · rw [alternating_moveOutgoing_iff h.alternating, and_iff_right hlive.2]
      tauto
    · refine iff_of_true h.alternating ?_
      rintro ⟨hout, htarget, -⟩
      exact hlive ⟨h.contains_of_outgoing hout, htarget⟩

theorem Bipartite.step (h : g.Bipartite) (kept : call.KeepsKind) (straight : ¬ g.Crosses call) :
    (g.after call).Bipartite :=
  ⟨h.toSound.step call, (alternating_after_iff h kept).2 straight⟩

/-! ## Graphs that calls lead to -/

/-- No call moves consumers over to a node of the other kind. -/
def Straight (calls : List Call) : Prop :=
  ∀ before call, before ++ [call] <+: calls → ¬ (reached before).Crosses call

theorem reached_concat (before : List Call) (call : Call) :
    reached (before ++ [call]) = (reached before).after call := by
  rw [reached, List.foldl_append]
  rfl

theorem sound_reached (calls : List Call) : (reached calls).Sound :=
  Sound.foldl_after calls sound_empty

theorem Straight.of_prefix {before calls : List Call} (h : Straight calls)
    (hpre : before <+: calls) : Straight before :=
  fun early call hearly => h early call (hearly.trans hpre)

theorem Straight.bipartite {calls : List Call} (kept : ∀ call ∈ calls, call.KeepsKind)
    (straight : Straight calls) : (reached calls).Bipartite := by
  induction calls using List.reverseRecOn with
  | nil => exact bipartite_empty
  | append_singleton before call ih =>
    have h := ih (fun call hcall => kept call (List.mem_append_left _ hcall))
      (straight.of_prefix (List.prefix_append _ _))
    rw [reached_concat]
    exact h.step (kept call (by simp)) (straight before call List.prefix_rfl)

/-- What the check of a graph means for one that calls lead to. It accepts the graph if and only if
tensors have one producer and operations one input a port. The edges alternate all along if and only
if no consumers are moved over to a node of the other kind, and then the check accepts exactly the
graphs that are consistent in all three respects. A call that does move consumers so makes the edges
no longer alternate, and the check accepts the graph behind it as it did before. -/
theorem reached_validate_iff (calls : List Call) (kept : ∀ call ∈ calls, call.KeepsKind) :
    ((reached calls).validate = .ok () ↔ (reached calls).Consistent) ∧
    ((∀ before, before <+: calls → (reached before).Alternating) ↔ Straight calls) ∧
    (Straight calls →
      ((reached calls).validate = .ok () ↔
        (reached calls).Alternating ∧ (reached calls).Consistent)) ∧
    ∀ before call, before ++ [call] <+: calls → (reached before).Alternating →
      (reached before).Crosses call → ¬ (reached (before ++ [call])).Alternating ∧
        ((reached (before ++ [call])).validate = .ok () ↔ (reached before).validate = .ok ()) := by
  have hstep : ∀ before call, before ++ [call] <+: calls → (reached before).Alternating →
      ((reached (before ++ [call])).Alternating ↔ ¬ (reached before).Crosses call) := by
    intro before call hpre alt
    rw [reached_concat]
    refine alternating_after_iff ⟨sound_reached before, alt⟩ (kept call ?_)
    exact hpre.subset (by simp)
  refine ⟨validate_eq_ok_iff, ⟨?_, ?_⟩, ?_, ?_⟩
  · intro alt before call hpre
    exact (hstep before call hpre (alt before ((List.prefix_append _ _).trans hpre))).1
      (alt _ hpre)
  · intro straight before hpre
    have hbefore := (straight.of_prefix hpre).bipartite
      fun call hcall => kept call (hpre.subset hcall)
    exact hbefore.alternating
  · intro straight
    rw [validate_eq_ok_iff, and_iff_right (straight.bipartite kept).alternating]
  · intro before call hpre alt crosses
    refine ⟨fun alt' => (hstep before call hpre alt).1 alt' crosses, ?_⟩
    rw [reached_concat]
    cases call with
    | reroute source target =>
      obtain ⟨hout, htarget, -⟩ := crosses
      have hsource := (sound_reached before).contains_of_outgoing hout
      rw [after_reroute, if_pos ⟨hsource, htarget⟩, validate_moveOutgoing_iff]
    | _ => exact crosses.elim

/-- A tensor that an operation reads, and the move of this operation over to another one. -/
def crossedCalls : List Call :=
  [.addData "d", .addOp "f" "Relu", .addOp "h" "Relu", .connect 0 1 0, .reroute 0 2]

/-- One operation leads to another, and the check accepts the graph. -/
theorem crossedCalls_accepted :
    (∀ call ∈ crossedCalls, call.KeepsKind) ∧ (reached crossedCalls).hasEdge 2 1 = true ∧
      (reached crossedCalls).kind? 2 = some .op ∧ (reached crossedCalls).kind? 1 = some .op ∧
      ¬ (reached crossedCalls).Alternating ∧ (reached crossedCalls).validate = .ok () := by
  have kept : ∀ call ∈ crossedCalls, call.KeepsKind := by
    simp [crossedCalls, Call.KeepsKind]
  have crosses : (reached (crossedCalls.take 4)).Crosses (.reroute 0 2) :=
    ⟨by decide +kernel, by decide +kernel, by decide +kernel⟩
  have alt : (reached (crossedCalls.take 4)).Alternating := by
    unfold Alternating
    decide +kernel
  obtain ⟨-, -, -, hcrossed⟩ := reached_validate_iff crossedCalls kept
  obtain ⟨hcross, hvalid⟩ :=
    hcrossed (crossedCalls.take 4) (.reroute 0 2) List.prefix_rfl alt crosses
  exact ⟨kept, by decide +kernel, by decide +kernel, by decide +kernel, hcross,
    hvalid.2 (by decide +kernel)⟩

end ModelIR.Graph
