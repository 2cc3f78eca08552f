import ModelIR.Proofs.FreshNames
import ModelIR.Proofs.GraphEdits

/-!
# Calls on a graph

The index of names and the slots change in different steps, and a call that fails may have taken
some of them. Still every call leaves a sound graph sound (`Sound.step`): the index has one entry
for each node and no other, and edges join nodes. So every graph is sound that calls lead to from
the empty one (`reached_sound`), whatever they are given, and whether they succeed or fail.
-/

namespace ModelIR

namespace Edit

variable {ε α β : Type} {P : Graph → Prop}

/-- The edit leaves a graph with the property, whether it succeeds or fails. -/
def Keeps (P : Graph → Prop) (x : Edit ε α) : Prop :=
  ∀ g, P g → P (x.runOn g).2

theorem keeps_pure (a : α) : Keeps P (pure a : Edit ε α) := fun _ h => h

theorem keeps_get : Keeps P (get : Edit ε Graph) := fun _ h => h

theorem Keeps.bind {x : Edit ε α} {f : α → Edit ε β} (hx : Keeps P x) (hf : ∀ a, Keeps P (f a)) :
    Keeps P (x >>= f) := by
  intro g h
  have hleft := hx g h
  rcases hrun : x.runOn g with ⟨e | a, g'⟩ <;> rw [hrun] at hleft
  · rw [runOn_bind_error hrun]
    exact hleft
  · rw [runOn_bind_ok hrun]
    exact hf a g' hleft

end Edit

namespace Graph

variable {g : Graph} {i : NodeId} {node : Node}

/-- A well-formed graph in whose index no name stands twice. -/
structure Sound (g : Graph) : Prop extends g.WellFormed where
  names_nodup : (g.names.map Prod.fst).Nodup

theorem sound_empty : Sound empty where
  find_iff := by simp [empty, find?, node?]
  source_live := nofun
  target_live := nofun
  vacated_lt := nofun
  vacated_empty := nofun
  vacated_nodup := .nil
  names_nodup := .nil

/-! ## The index -/

theorem Sound.mem_names_iff (h : g.Sound) {name : String} :
    (name, i) ∈ g.names ↔ ∃ node, g.node? i = some node ∧ node.name = name := by
  rw [← h.find_iff]
  exact ⟨lookup_of_mem h.names_nodup, mem_of_lookup⟩

theorem WellFormed.eq_of_name_eq (h : g.WellFormed) {j : NodeId} {other : Node}
    (hi : g.node? i = some node) (hj : g.node? j = some other) (hname : node.name = other.name) :
    i = j := by
  have hfind := (h.find_iff node.name i).2 ⟨node, hi, rfl⟩
  rw [(h.find_iff node.name j).2 ⟨other, hj, hname.symm⟩] at hfind
  exact (Option.some.inj hfind).symm

/-- The entries of the index are the nodes, each once. -/
theorem Sound.nodeIds_perm (h : g.Sound) : (g.names.map Prod.snd).Perm g.nodeIds := by
  have hnodup : (g.names.map Prod.snd).Nodup := by
    refine (List.Nodup.of_map _ h.names_nodup).map_on ?_
    rintro ⟨name, i⟩ hi ⟨name', j⟩ hj (rfl : i = j)
    obtain ⟨node, hnode, rfl⟩ := h.mem_names_iff.1 hi
    obtain ⟨other, hother, rfl⟩ := h.mem_names_iff.1 hj
    rw [Option.some.inj (hnode.symm.trans hother)]
  refine (List.perm_ext_iff_of_nodup hnodup (nodup_nodeIds g)).2 fun i => ?_
  rw [mem_nodeIds, contains_iff, List.mem_map]
  constructor
  · rintro ⟨⟨name, i⟩, hmem, rfl⟩
    obtain ⟨node, hnode, -⟩ := h.mem_names_iff.1 hmem
    exact ⟨node, hnode⟩
  · rintro ⟨node, hnode⟩
    exact ⟨(node.name, i), h.mem_names_iff.2 ⟨node, hnode, rfl⟩, rfl⟩

theorem Sound.nodeCount_eq (h : g.Sound) : g.nodeCount = g.names.length := by
  rw [nodeCount, ← h.nodeIds_perm.length_eq, List.length_map]

/-! ## Taking out a node -/

/-- `g'` is `g` without the node in a slot: the name of the node is free, and the edges at the slot
are gone. -/
structure Freed (g : Graph) (i : NodeId) (node : Node) (g' : Graph) : Prop where
  node? : ∀ j, g'.node? j = if j = i then none else g.node? j
  find? : ∀ name, g'.find? name = if name = node.name then none else g.find? name
  edges : g'.edges = g.edges.filter fun e => e.source ≠ i && e.target ≠ i

theorem remove_of_empty (h : g.node? i = none) : g.remove i = (none, g) := by
  rw [remove, h]

theorem remove_fst (h : g.node? i = some node) : (g.remove i).1 = some node := by
  rw [remove, h]

theorem remove_freed (h : g.node? i = some node) : Freed g i node (g.remove i).2 := by
  rw [remove, h]
  refine ⟨fun j => ?_, fun name => lookup_filter_ne node.name g.names, rfl⟩
  have hi := lt_length_of_node? h
  simp only [Graph.node?, List.getElem?_set]
  split_ifs with hij hji hji
  · rfl
  · exact absurd hij.symm hji
  · exact absurd hji.symm hij
  · rfl

theorem Freed.contains {g' : Graph} (f : Freed g i node g') {j : NodeId} (hj : g.contains j)
    (hne : j ≠ i) : g'.contains j := by
  rwa [Graph.contains, f.node?, if_neg hne]

theorem Freed.mem_edges {g' : Graph} (f : Freed g i node g') {e : Edge} (he : e ∈ g'.edges) :
    e ∈ g.edges ∧ e.source ≠ i ∧ e.target ≠ i := by
  rw [f.edges, List.mem_filter] at he
  simpa using he

theorem Vacancies.remove (v : g.Vacancies) (i : NodeId) : (g.remove i).2.Vacancies := by
  rcases hi : g.node? i with _ | node
  · rw [remove_of_empty hi]
    exact v
  have f := remove_freed hi
  have hvacated : (g.remove i).2.vacated = i :: g.vacated := by rw [Graph.remove, hi]
  have hlength : (g.remove i).2.slots.length = g.slots.length := by
    rw [Graph.remove, hi]
    exact List.length_set
  refine ⟨?_, ?_, ?_⟩
  · rw [hvacated, hlength]
    exact List.forall_mem_cons.2 ⟨lt_length_of_node? hi, v.lt⟩
  · intro j hj
    rw [f.node?]
    split_ifs with hji
    · rfl
    · rw [hvacated] at hj
      exact v.empty j ((List.mem_cons.1 hj).resolve_left hji)
  · rw [hvacated]
    refine List.nodup_cons.2 ⟨fun hmem => ?_, v.nodup⟩
    simp [v.empty i hmem] at hi

theorem WellFormed.remove (h : g.WellFormed) (hi : g.node? i = some node) :
    (g.remove i).2.WellFormed := by
  have f := remove_freed hi
  have v := h.vacancies.remove i
  refine ⟨fun name j => ?_, fun e he => ?_, fun e he => ?_, v.lt, v.empty, v.nodup⟩
  · rw [f.find?, f.node?]
    split_ifs with hname hj hj
    · simp
    · refine iff_of_false nofun ?_
      rintro ⟨other, hother, hsame⟩
      exact hj (h.eq_of_name_eq hother hi (hsame.trans hname))
    · refine iff_of_false (fun hfind => hname ?_) (by simp)
      obtain ⟨other, hother, rfl⟩ := (h.find_iff name j).1 hfind
      rw [hj, hi] at hother
      exact congrArg Node.name (Option.some.inj hother).symm
    · exact h.find_iff name j
  · obtain ⟨hold, hsource, -⟩ := f.mem_edges he
    exact f.contains (h.source_live e hold) hsource
  · obtain ⟨hold, -, htarget⟩ := f.mem_edges he
    exact f.contains (h.target_live e hold) htarget

theorem Sound.remove (h : g.Sound) (i : NodeId) : (g.remove i).2.Sound := by
  rcases hi : g.node? i with _ | node
  · rw [remove_of_empty hi]
    exact h
  · refine ⟨h.toWellFormed.remove hi, h.names_nodup.sublist ?_⟩
    rw [Graph.remove, hi]
    exact List.filter_sublist.map Prod.fst

/-! ## What edits keep

An edit that fails changes nothing, or only as far as its parts succeeded. So it keeps what the
changes keep that it is made of. -/

section Keeps

variable {P : Graph → Prop} {source target : NodeId} {port : Port}

theorem keeps_addNode_of (insert : ∀ g, P g → g.isFree node.name → P (g.insert node).2) :
    Edit.Keeps P (addNode node) := by
  intro g h
  rw [addNode, Edit.runOn_get_bind]
  split_ifs with free
  · exact insert g h free
  · exact h

theorem keeps_connect_of (link : ∀ g s t, P g → g.node? source = some s →
      g.node? target = some t → s.kind ≠ t.kind → P (g.link source target port)) :
    Edit.Keeps P (connect source target port) := by
  intro g h
  rw [connect, Edit.runOn_get_bind]
  rcases hs : g.node? source with _ | s
  · exact h
  rcases ht : g.node? target with _ | t
  · exact h
  simp only
  split_ifs with hk
  · exact h
  · exact link g s t h hs ht hk

theorem keeps_addConst_of (add : ∀ node, Edit.Keeps P (addNode node))
    (join : ∀ source target port, Edit.Keeps P (connect source target port)) (name : String)
    (values : List Float) : Edit.Keeps P (addConst name values) :=
  Edit.keeps_get.bind fun _ => (add _).bind fun _ => (add _).bind fun _ =>
    (join _ _ _).bind fun _ => Edit.keeps_pure _

theorem keeps_rerouteConsumers_of (move : ∀ g, P g → g.contains source → g.contains target →
      P (g.moveOutgoing source target)) : Edit.Keeps P (rerouteConsumers source target) := by
  intro g h
  rcases hs : g.contains source with _ | _
  · rw [rerouteConsumers, Edit.runOn_get_bind, hs]
    exact h
  rcases ht : g.contains target with _ | _
  · rw [rerouteConsumers, Edit.runOn_get_bind, hs, ht]
    exact h
  rw [rerouteConsumers_runOn hs ht]
  exact move g h hs ht

end Keeps

/-! ## Other changes -/

theorem Sound.insert (h : g.Sound) (free : g.isFree node.name) : (g.insert node).2.Sound := by
  refine ⟨(insert_added h.vacancies node).wellFormed h.toWellFormed free, ?_⟩
  have hnames : (g.insert node).2.names = (node.name, (g.insert node).1) :: g.names := by
    unfold Graph.insert
    rcases g.vacated with _ | ⟨i, vacated⟩ <;> rfl
  rw [hnames, List.map_cons, List.nodup_cons]
  refine ⟨fun hmem => ?_, h.names_nodup⟩
  simp [isFree_eq_false_iff.2 hmem] at free

theorem keeps_addNode (node : Node) : Edit.Keeps Sound (addNode node) :=
  keeps_addNode_of fun _ h free => h.insert free

theorem Sound.link (h : g.Sound) {source target : NodeId} (hs : g.contains source)
    (ht : g.contains target) (port : Port) : (g.link source target port).Sound :=
  ⟨h.toWellFormed.link hs ht port, h.names_nodup⟩

theorem keeps_connect (source target : NodeId) (port : Port) :
    Edit.Keeps Sound (connect source target port) :=
  keeps_connect_of fun _ s t h hs ht _ =>
    h.link (contains_iff.2 ⟨s, hs⟩) (contains_iff.2 ⟨t, ht⟩) port

theorem keeps_addConst (name : String) (values : List Float) :
    Edit.Keeps Sound (addConst name values) :=
  keeps_addConst_of keeps_addNode keeps_connect name values

theorem keeps_rerouteConsumers (source target : NodeId) :
    Edit.Keeps Sound (rerouteConsumers source target) :=
  keeps_rerouteConsumers_of fun _ h _ ht => ⟨h.toWellFormed.moveOutgoing ht, h.names_nodup⟩

/-! ## Calls -/

/-- What may be called on a graph. -/
inductive Call where
  | addNode (node : Node)
  | addOp (name type : String)
  | addData (name : String)
  | addConst (name : String) (values : List Float)
  | remove (i : NodeId)
  | connect (source target : NodeId) (port : Port)
  | reroute (source target : NodeId)
  /-- Writes to a node, all but its name. -/
  | write (i : NodeId) (change : Node → Node)

/-- The graph that is left behind a call, whether it succeeds or fails. -/
def after (g : Graph) : Call → Graph
  | .addNode node => ((Graph.addNode node).runOn g).2
  | .addOp name type => ((Graph.addOp name type).runOn g).2
  | .addData name => ((Graph.addData name).runOn g).2
  | .addConst name values => ((Graph.addConst name values).runOn g).2
  | .remove i => (g.remove i).2
  | .connect source target port => ((Graph.connect source target port).runOn g).2
  | .reroute source target => ((rerouteConsumers source target).runOn g).2
  | .write i change => g.modifyNode i fun node => { change node with name := node.name }

theorem Sound.step (h : g.Sound) (call : Call) : (g.after call).Sound := by
  cases call with
  | addNode node => exact keeps_addNode node g h
  | addOp name type => exact keeps_addNode _ g h
  | addData name => exact keeps_addNode _ g h
  | addConst name values => exact keeps_addConst name values g h
  | remove i => exact h.remove i
  | connect source target port => exact keeps_connect source target port g h
  | reroute source target => exact keeps_rerouteConsumers source target g h
  | write i change => exact ⟨h.toWellFormed.modifyNode fun _ => rfl, h.names_nodup⟩

/-- The graph that calls lead to, one after the other, from the empty one. -/
def reached (calls : List Call) : Graph :=
  calls.foldl after empty

theorem Sound.foldl_after : ∀ (calls : List Call) {g : Graph}, g.Sound → (calls.foldl after g).Sound
  | [], _, h => h
  | call :: calls, _, h => Sound.foldl_after calls (h.step call)

/-- In a graph that calls lead to, a name is found where the node of that name is, no two nodes
share a name, edges join nodes, and the index has as many names as there are nodes. To take out a
node frees its name and no other, and takes away the edges at the node and no others. -/
theorem reached_sound (calls : List Call) :
    (∀ name i, (reached calls).find? name = some i ↔
      ∃ node, (reached calls).node? i = some node ∧ node.name = name) ∧
    (∀ i j node other, (reached calls).node? i = some node → (reached calls).node? j = some other →
      node.name = other.name → i = j) ∧
    (∀ e ∈ (reached calls).edges,
      (reached calls).contains e.source ∧ (reached calls).contains e.target) ∧
    ((reached calls).names.map Prod.fst).Nodup ∧
    (reached calls).nodeCount = (reached calls).names.length ∧
    ∀ i, ((reached calls).node? i = none → (reached calls).remove i = (none, reached calls)) ∧
      ∀ node, (reached calls).node? i = some node →
        ((reached calls).remove i).1 = some node ∧
          Freed (reached calls) i node ((reached calls).remove i).2 := by
  have h : (reached calls).Sound := Sound.foldl_after calls sound_empty
  refine ⟨h.find_iff, fun i j node other => h.toWellFormed.eq_of_name_eq, fun e he => ?_,
    h.names_nodup, h.nodeCount_eq, fun i => ⟨remove_of_empty, fun node hnode => ?_⟩⟩
  · exact ⟨h.source_live e he, h.target_live e he⟩
  · exact ⟨remove_fst hnode, remove_freed hnode⟩

end Graph

end ModelIR
