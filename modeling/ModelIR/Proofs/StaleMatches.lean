import ModelIR.Proofs.GraphCalls
import ModelIR.Proofs.InputMatches
import ModelIR.Proofs.Matching

/-!
# Matches in a graph that changes

A match counts as live while the slots of its nodes are in use. A slot in use stays so until its
node is taken out (`contains_mutate`), so a match of which no node is taken out is live. But a slot
that was vacated is the first to be used again (`node?_insert_remove`), and once it is, the match
that bound the node taken out counts as live again: matches know the slots of their nodes and not
the nodes. What is decided is whether every vacated slot was filled again
(`contains_mutateAll_iff`), in a pass as well, where the rewrites of earlier matches are what
changed the graph (`isLive_mutateAll_iff`).
-/

namespace ModelIR

namespace Graph

variable {g : Graph} {i j : NodeId} {node : Node} {change : Node → Node}

/-- What may be done to a graph: a call, or a write to a node that may be to its name as well. -/
inductive Mutation where
  | call (call : Call)
  | overwrite (i : NodeId) (change : Node → Node)

/-- A node is taken out. -/
abbrev removal (i : NodeId) : Mutation :=
  .call (.remove i)

/-- The graph behind a mutation. -/
def mutate (g : Graph) : Mutation → Graph
  | .call call => g.after call
  | .overwrite i change => g.modifyNode i change

/-- The graph behind mutations, one after the other. -/
def mutateAll (g : Graph) (mutations : List Mutation) : Graph :=
  mutations.foldl mutate g

/-! ## Slots in use -/

theorem contains_insert (h : g.contains i) (node : Node) : (g.insert node).2.contains i := by
  obtain ⟨other, hother⟩ := contains_iff.1 h
  have hlt := lt_length_of_node? hother
  unfold Graph.insert
  rcases g.vacated with _ | ⟨j, vacated⟩
  · simp only [contains, node?, List.getElem?_append_left hlt]
    exact h
  · by_cases hj : j = i
    · simp [contains, node?, hj, hlt]
    · simp only [contains, node?, List.getElem?_set_ne hj]
      exact h

theorem keeps_contains_addNode (i : NodeId) (node : Node) :
    Edit.Keeps (·.contains i) (addNode node) :=
  keeps_addNode_of fun _ h _ => contains_insert h node

theorem keeps_contains_connect (i source target : NodeId) (port : Port) :
    Edit.Keeps (·.contains i) (connect source target port) :=
  keeps_connect_of fun _ _ _ h _ _ _ => h

/-- A slot in use stays in use unless its node is taken out. -/
theorem contains_mutate {mutation : Mutation} (h : g.contains i) (hne : mutation ≠ removal i) :
    (g.mutate mutation).contains i := by
  cases mutation with
  | overwrite j change => exact (modifyNode_contains g j i change).trans h
  | call call =>
    cases call with
    | addNode node => exact keeps_contains_addNode i node g h
    | addOp name type => exact keeps_contains_addNode i _ g h
    | addData name => exact keeps_contains_addNode i _ g h
    | addConst name values =>
      exact keeps_addConst_of (keeps_contains_addNode i) (keeps_contains_connect i) name values g h
    | connect source target port => exact keeps_contains_connect i source target port g h
    | reroute source target =>
      exact keeps_rerouteConsumers_of (P := (·.contains i)) (fun _ h _ _ => h) g h
    | write j change => exact (modifyNode_contains g j i _).trans h
    | remove j =>
      change (g.remove j).2.contains i
      rcases hj : g.node? j with _ | node
      · rwa [remove_of_empty hj]
      · refine (remove_freed hj).contains h ?_
        rintro rfl
        exact hne rfl

theorem contains_mutate_removal (g : Graph) (i : NodeId) :
    (g.mutate (removal i)).contains i = false := by
  change (g.remove i).2.contains i = false
  rw [contains_eq_false_iff]
  rcases hi : g.node? i with _ | node
  · rwa [remove_of_empty hi]
  · rw [(remove_freed hi).node?, if_pos rfl]

/-- The slot that was vacated last is used next. -/
theorem node?_insert_remove (hi : g.node? i = some node) (other : Node) (j : NodeId) :
    ((g.remove i).2.insert other).2.node? j = if j = i then some other else g.node? j := by
  have hlt := lt_length_of_node? hi
  rw [Graph.remove, hi]
  simp only [Graph.insert, Graph.node?, List.getElem?_set, List.length_set]
  split_ifs with h1 h2 h2
  · rfl
  · exact absurd h1.symm h2
  · exact absurd h2.symm h1
  · rfl

/-! ## Slots that are filled again -/

/-- A mutation puts a node into a slot that was not in use. -/
def Fills (g : Graph) (mutation : Mutation) (i : NodeId) : Prop :=
  g.contains i = false ∧ (g.mutate mutation).contains i = true

/-- Whenever a node was to be taken out of the slot, one was put into it afterwards. -/
def Refilled (g : Graph) (mutations : List Mutation) (i : NodeId) : Prop :=
  ∀ before rest, mutations = before ++ removal i :: rest →
    ∃ between mutation later, rest = between ++ mutation :: later ∧
      (g.mutateAll (before ++ removal i :: between)).Fills mutation i

theorem mutateAll_append (g : Graph) (before rest : List Mutation) :
    g.mutateAll (before ++ rest) = (g.mutateAll before).mutateAll rest :=
  List.foldl_append

theorem contains_mutateAll_of_not_mem : ∀ {mutations : List Mutation} {g : Graph}, g.contains i →
    removal i ∉ mutations → (g.mutateAll mutations).contains i
  | [], _, h, _ => h
  | mutation :: mutations, g, h, hno => by
    rw [List.mem_cons, not_or] at hno
    exact contains_mutateAll_of_not_mem (g := g.mutate mutation)
      (contains_mutate h (Ne.symm hno.1)) hno.2

theorem exists_fills : ∀ {mutations : List Mutation} {g : Graph}, g.contains i = false →
    (g.mutateAll mutations).contains i → ∃ between mutation later,
      mutations = between ++ mutation :: later ∧ (g.mutateAll between).Fills mutation i
  | [], _, h, hend => by
    change _ = true at hend
    rw [mutateAll, List.foldl_nil, h] at hend
    exact nomatch hend
  | mutation :: mutations, g, h, hend => by
    rcases hnext : (g.mutate mutation).contains i with _ | _
    · obtain ⟨between, last, later, rfl, hfills⟩ := exists_fills hnext hend
      exact ⟨mutation :: between, last, later, rfl, hfills⟩
    · exact ⟨[], mutation, mutations, rfl, h, hnext⟩

/-- A slot that was in use is in use if and only if it was filled again each time that it was
vacated: behind the last removal it is filled, and nothing empties it any more. -/
theorem contains_mutateAll_iff (h : g.contains i) (mutations : List Mutation) :
    (g.mutateAll mutations).contains i ↔ g.Refilled mutations i := by
  constructor
  · rintro hend before rest rfl
    rw [mutateAll_append] at hend
    obtain ⟨between, mutation, later, rfl, hfills⟩ :=
      exists_fills (contains_mutate_removal (g.mutateAll before) i) hend
    refine ⟨between, mutation, later, rfl, ?_⟩
    rwa [mutateAll_append]
  · intro hrefilled
    by_cases hmem : removal i ∈ mutations
    · obtain ⟨after, before, hsplit, hlast⟩ :=
        List.eq_append_cons_of_mem (List.mem_reverse.2 hmem)
      have hmutations : mutations = before.reverse ++ removal i :: after.reverse := by
        rw [← List.reverse_reverse mutations, hsplit]
        simp
      obtain ⟨between, mutation, later, hrest, -, hfilled⟩ := hrefilled _ _ hmutations
      have hno : removal i ∉ later := fun hlater =>
        hlast (List.mem_reverse.1 (hrest ▸ List.mem_append_right _ (List.mem_cons_of_mem _ hlater)))
      have heq : mutations =
          (before.reverse ++ removal i :: between) ++ mutation :: later := by
        rw [hmutations, hrest, List.append_assoc, List.cons_append]
      rw [heq, mutateAll_append]
      exact contains_mutateAll_of_not_mem (g := Graph.mutate _ mutation) hfilled hno
    · exact contains_mutateAll_of_not_mem h hmem

end Graph

/-! ## Matches -/

open ModelIR.Graph

theorem Match.isLive_iff {m : Match} {g : Graph} :
    m.isLive g = true ↔ ∀ i ∈ m.nodes, g.contains i = true := by
  rw [Match.isLive, List.all_eq_true, Match.nodes, List.forall_mem_map]

theorem Pattern.mem_nodes_ofLists : ∀ {labels : List String} {l : List NodeId} {i : NodeId},
    i ∈ (Match.ofLists labels l).nodes → i ∈ l
  | [], _, _, h => by simp [Match.ofLists, Match.nodes] at h
  | _ :: _, [], _, h => by simp [Match.ofLists, Match.nodes] at h
  | label :: labels, j :: l, i, h => by
    simp only [Match.ofLists, Match.nodes] at h
    split_ifs at h with hknown
    · exact List.mem_cons_of_mem _ (mem_nodes_ofLists h)
    · rw [List.map_cons, List.mem_cons] at h
      rcases h with rfl | h
      · exact List.mem_cons_self
      · exact List.mem_cons_of_mem _ (mem_nodes_ofLists h)

/-- The nodes of a match are nodes of the graph. -/
theorem Pattern.contains_of_mem_findMatches {p : Pattern} {g : Graph} {m : Match} {i : NodeId}
    (hm : m ∈ p.findMatches g) (hi : i ∈ m.nodes) : g.contains i := by
  rw [findMatches] at hm
  split_ifs at hm with hempty
  · exact absurd hm List.not_mem_nil
  obtain ⟨l, hl, rfl⟩ := List.mem_map.1 hm
  have hsuits := (mem_extensions_nil.1 hl).1
  obtain ⟨k, hk, rfl⟩ := List.getElem_of_mem (mem_nodes_ofLists hi)
  obtain ⟨node, hnode, -⟩ := hsuits.get (hsuits.length_eq ▸ hk) hk
  exact contains_iff.2 ⟨node, hnode⟩

theorem Match.isLive_iff_refilled {p : Pattern} {g : Graph} {m : Match} (hm : m ∈ p.findMatches g)
    (mutations : List Mutation) :
    m.isLive (g.mutateAll mutations) = true ↔ ∀ i ∈ m.nodes, g.Refilled mutations i := by
  rw [Match.isLive_iff]
  exact forall₂_congr fun i hi =>
    contains_mutateAll_iff (Pattern.contains_of_mem_findMatches hm hi) mutations

/-- A node may be taken out and another one put in between the finding of a match and its turn. -/
theorem Match.isLive_remove_addNode {p : Pattern} {g : Graph} {m : Match} {i : NodeId} {node : Node}
    (hm : m ∈ p.findMatches g) (hi : i ∈ m.nodes) (free : (g.remove i).2.isFree node.name) :
    m.isLive (g.mutateAll [removal i, .call (.addNode node)]) = true ∧
      (g.mutateAll [removal i, .call (.addNode node)]).node? i = some node := by
  have hlive := fun j hj => contains_iff.1 (Pattern.contains_of_mem_findMatches hm (i := j) hj)
  obtain ⟨old, hold⟩ := hlive i hi
  have hgraph : g.mutateAll [removal i, .call (.addNode node)] =
      ((g.remove i).2.insert node).2 := by
    change ((addNode node).runOn (g.remove i).2).2 = _
    rw [addNode, Edit.runOn_get_bind, if_pos free]
    rfl
  rw [hgraph, Match.isLive_iff]
  refine ⟨fun j hj => ?_, ?_⟩
  · rw [contains_iff]
    simp only [node?_insert_remove hold]
    split_ifs
    · exact ⟨node, rfl⟩
    · exact hlive j hj
  · rw [node?_insert_remove hold, if_pos rfl]

/-! ## Passes that rewrite matches -/

/-- A pass comes to the matches that are left when it has rewritten those before them. -/
theorem Pass.apply_runOn_of_found {pass : Pass} {p : Pattern}
    {replace : Match → RunConfig → Edit PassError Unit} {config : RunConfig} {g g' : Graph}
    {before rest : List Match} (haction : pass.action = .rewrite p replace)
    (hfound : p.findMatches g = before ++ rest)
    (hrun : (rewriteAll replace config before).runOn g = (.ok (), g')) :
    (pass.apply config).runOn g = (rewriteAll replace config rest).runOn g' := by
  rw [apply, haction]
  refine (Edit.runOn_pass_get_bind _).trans ?_
  rw [hfound, rewriteAll_append, Edit.runOn_bind_ok hrun]

/-- A rewrite that is made of mutations: what it does to a graph with a match, and what it comes
to. -/
structure Script where
  mutations : Match → RunConfig → Graph → List Mutation
  answer : Match → RunConfig → Graph → Except PassError Unit

namespace Script

variable {script : Script} {config : RunConfig}

/-- Rewrites a match as the script says. -/
def replace (script : Script) (m : Match) (config : RunConfig) : Edit PassError Unit := do
  let g ← get
  set (g.mutateAll (script.mutations m config g))
  Edit.ofExcept (script.answer m config g)

/-- What the rewrites of matches do to a graph, one after the other and until one fails. -/
def made (script : Script) (config : RunConfig) (g : Graph) : List Match → List Mutation
  | [] => []
  | m :: rest =>
    if m.isLive g then
      script.mutations m config g ++
        match script.answer m config g with
        | .ok () => made script config (g.mutateAll (script.mutations m config g)) rest
        | .error _ => []
    else made script config g rest

theorem replace_runOn (script : Script) (m : Match) (config : RunConfig) (g : Graph) :
    (script.replace m config).runOn g =
      (script.answer m config g, g.mutateAll (script.mutations m config g)) :=
  rfl

theorem rewriteAll_runOn : ∀ (found : List Match) (g : Graph),
    ((Pass.rewriteAll script.replace config found).runOn g).2 =
      g.mutateAll (script.made config g found)
  | [], _ => rfl
  | m :: rest, g => by
    rcases hlive : m.isLive g with _ | _
    · rw [Pass.rewriteAll_cons_of_stale hlive, made, hlive]
      exact rewriteAll_runOn rest g
    · rw [Pass.rewriteAll_cons hlive, made, if_pos hlive, mutateAll_append]
      have hstep := replace_runOn script m config g
      rcases hanswer : script.answer m config g with e | ⟨⟩ <;> rw [hanswer] at hstep
      · rw [Edit.runOn_bind_error hstep]
        rfl
      · rw [Edit.runOn_bind_ok hstep]
        exact rewriteAll_runOn rest _

end Script

/-- What it means that a match is live. Mutations of the graph may have taken out nodes of the match
since it was found: it is live if and only if each slot that was vacated so was filled again. Hence
a match of which nothing was taken out is live. But whatever node of a match is taken out, it takes
one new node to make the match live again, with the new node in the place of the one taken out. A
pass decides by this when the turn of a match comes: it rewrites the match if all that the rewrites
before it took out of the match was filled again, and passes over it otherwise. -/
theorem Match.isLive_mutateAll_iff {p : Pattern} {g : Graph} {m : Match}
    (hm : m ∈ p.findMatches g) :
    (∀ mutations, m.isLive (g.mutateAll mutations) = true ↔ ∀ i ∈ m.nodes, g.Refilled mutations i) ∧
    (∀ i ∈ m.nodes, ∀ node, (g.remove i).2.isFree node.name = true →
      m.isLive (g.mutateAll [removal i, .call (.addNode node)]) = true ∧
        (g.mutateAll [removal i, .call (.addNode node)]).node? i = some node) ∧
    ∀ (pass : Pass) (script : Script) (config : RunConfig) (before rest : List Match) (g' : Graph),
      pass.action = .rewrite p script.replace → p.findMatches g = before ++ m :: rest →
      (Pass.rewriteAll script.replace config before).runOn g = (.ok (), g') →
      g' = g.mutateAll (script.made config g before) ∧
      ((∀ i ∈ m.nodes, g.Refilled (script.made config g before) i) →
        (pass.apply config).runOn g = (script.replace m config >>= fun _ =>
          Pass.rewriteAll script.replace config rest).runOn g') ∧
      ((∃ i ∈ m.nodes, ¬ g.Refilled (script.made config g before) i) →
        (pass.apply config).runOn g = (Pass.rewriteAll script.replace config rest).runOn g') := by
  refine ⟨Match.isLive_iff_refilled hm, fun i hi node => Match.isLive_remove_addNode hm hi, ?_⟩
  intro pass script config before rest g' haction hfound hrun
  have hgraph : g' = g.mutateAll (script.made config g before) := by
    rw [← Script.rewriteAll_runOn, hrun]
  have happly := Pass.apply_runOn_of_found haction hfound hrun
  refine ⟨hgraph, fun hrefilled => ?_, ?_⟩
  · have hlive := (Match.isLive_iff_refilled hm _).2 hrefilled
    rw [← hgraph] at hlive
    rw [happly, Pass.rewriteAll_cons hlive]
  · rintro ⟨i, hi, hempty⟩
    have hstale : m.isLive g' = false := by
      rw [Bool.eq_false_iff, hgraph]
      exact fun hlive => hempty ((Match.isLive_iff_refilled hm _).1 hlive i hi)
    rw [happly, Pass.rewriteAll_cons_of_stale hstale]

/-- Two parameters with a tensor each. -/
def twoInputs : Graph where
  slots := [some (.ofOp "a" OpType.parameter), some (.ofData "a:0"),
    some (.ofOp "b" OpType.parameter), some (.ofData "b:0")]
  edges := [⟨2, 3, 0⟩, ⟨0, 1, 0⟩]
  names := [("b:0", 3), ("b", 2), ("a:0", 1), ("a", 0)]

/-- Takes out the tensor of the second parameter, and adds one. -/
def replacing : Script where
  mutations _ _ _ := [removal 3, .call (.addNode (.ofData "z"))]
  answer _ _ _ := .ok ()

/-- The pass that does so for every input. -/
def replacingPass : Pass where
  name := "Replacing"
  action := .rewrite Pass.inputPattern replacing.replace

/-- The rewrite of the first match takes out what the second one binds, and still the second one is
rewritten. -/
theorem twoInputs_rewritten : inputMatch (2, 3) ∈ Pass.inputPattern.findMatches twoInputs ∧
    ∃ g', g'.node? 3 = some (.ofData "z") ∧ (inputMatch (2, 3)).isLive g' = true ∧
      ∀ config, (Pass.rewriteAll replacing.replace config [inputMatch (0, 1)]).runOn twoInputs =
          (.ok (), g') ∧
        (replacingPass.apply config).runOn twoInputs =
          (replacing.replace (inputMatch (2, 3)) config >>= fun _ => pure ()).runOn g' := by
  have hfound : Pass.inputPattern.findMatches twoInputs =
      [inputMatch (0, 1)] ++ inputMatch (2, 3) :: [] := by
    rw [findMatches_inputPattern]
    decide
  have hm : inputMatch (2, 3) ∈ Pass.inputPattern.findMatches twoInputs := by simp [hfound]
  obtain ⟨hlive_iff, hreused, hpass⟩ := Match.isLive_mutateAll_iff hm
  obtain ⟨hlive, hnode⟩ := hreused 3 (by decide) (.ofData "z") (by decide)
  refine ⟨hm, _, hnode, hlive, fun config => ?_⟩
  have hfirst : (Pass.rewriteAll replacing.replace config [inputMatch (0, 1)]).runOn twoInputs =
      (.ok (), twoInputs.mutateAll [removal 3, .call (.addNode (.ofData "z"))]) := by
    rw [Pass.rewriteAll_cons (by decide)]
    rfl
  obtain ⟨-, hrewritten, -⟩ := hpass replacingPass replacing config _ _ _ rfl hfound hfirst
  refine ⟨hfirst, hrewritten ((hlive_iff _).1 ?_)⟩
  have hmade : replacing.made config twoInputs [inputMatch (0, 1)] =
      [removal 3, .call (.addNode (.ofData "z"))] := by
    rw [Script.made, if_pos (by decide)]
    rfl
  rw [hmade]
  exact hlive

end ModelIR
