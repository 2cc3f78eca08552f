import ModelIR.Proofs.Alternation
import ModelIR.Proofs.Neighbours

/-!
# Consumers that are moved over

To move the consumers of one node over to another makes the other lead to them, on the ports that
they read now, and changes no edge that leaves a third node (`outgoing_moveOutgoing`). In a graph
that the check accepts the inputs of a node are on different ports, so they keep their places when
one of them is replaced (`inNodes_moveOutgoing`).

The edges may also stand in a table under numbers, and be moved one at a time by the numbers that
they had at the start. For a new edge the table may take any number that is not in use, even one
that was given up before. The edges still to be moved have their numbers in use until their turn, so
none is mistaken for another (`MovedOver.map_snd`).
-/

namespace ModelIR.Graph

variable {g : Graph} {source target i : NodeId}

/-! ## What leaves a node -/

theorem outgoing_moveOutgoing (g : Graph) (source target i : NodeId) :
    (g.moveOutgoing source target).outgoing i =
      (if i = target then ((g.outgoing source).map fun e => { e with source := target }).reverse
        else []) ++ if i = source then [] else g.outgoing i := by
  rw [outgoing, moveOutgoing, List.filter_append]
  congr 1
  · rw [List.filter_reverse, List.filter_map]
    split_ifs with h
    · rw [List.filter_eq_self.2]
      simp [h]
    · rw [List.filter_eq_nil_iff.2]
      · rfl
      · simp [Ne.symm h]
  · rw [List.filter_filter]
    split_ifs with h
    · rw [List.filter_eq_nil_iff]
      simp [h]
    · refine List.filter_congr fun e _ => ?_
      by_cases he : e.source = i
      · simp [he, h]
      · simp [he]

theorem map_landing_moved (edges : List Edge) (target : NodeId) :
    (edges.map fun e => { e with source := target }).map landing = edges.map landing := by
  rw [List.map_map]
  rfl

theorem consumers_moveOutgoing_target (hne : source ≠ target) :
    ((g.moveOutgoing source target).consumers target).Perm
      (g.consumers source ++ g.consumers target) := by
  have hout : (g.moveOutgoing source target).outgoing target =
      ((g.outgoing source).map fun e => { e with source := target }).reverse ++
        g.outgoing target := by
    rw [outgoing_moveOutgoing, if_pos rfl, if_neg hne.symm]
  refine (consumers_perm _ _).trans (List.Perm.trans ?_
    ((consumers_perm g source).append (consumers_perm g target)).symm)
  rw [hout, List.map_append, List.map_reverse, List.map_map]
  exact (List.reverse_perm _).append_right _

theorem consumers_moveOutgoing_self (g : Graph) (source : NodeId) :
    (g.moveOutgoing source source).consumers source = g.consumers source := by
  refine consumers_eq_of_perm ?_
  rw [outgoing_moveOutgoing, if_pos rfl, if_pos rfl, List.append_nil, List.map_reverse,
    map_landing_moved]
  exact List.reverse_perm _

theorem edgeCount_moveOutgoing (g : Graph) (source target : NodeId) :
    (g.moveOutgoing source target).edgeCount = g.edgeCount := by
  rw [edgeCount, (edges_moveOutgoing g source target).length_eq, List.length_map, edgeCount]

/-! ## What enters a node -/

/-- A node, unless it is the one that is replaced. -/
def replaced (source target i : NodeId) : NodeId :=
  if i = source then target else i

theorem source_redirect (source target : NodeId) (e : Edge) :
    (redirect source target e).source = replaced source target e.source := by
  unfold redirect replaced
  split_ifs <;> rfl

theorem Consistent.nodup_ports (c : g.Consistent) (hi : g.contains i) :
    ((g.incoming i).map Edge.port).Nodup := by
  obtain ⟨node, hnode⟩ := contains_iff.1 hi
  have hkind : g.kind? i = some node.kind := by rw [kind?, hnode, Option.map_some]
  rcases hk : node.kind with _ | _ <;> rw [hk] at hkind
  · exact c.ports i hkind
  · have hlength := c.producers i hkind
    rcases hin : g.incoming i with _ | ⟨e, _ | ⟨e', rest⟩⟩
    · exact List.nodup_nil
    · exact List.nodup_singleton _
    · simp [hin] at hlength

/-- Neighbours on different ports are in the order of their ports, whatever nodes they are. -/
theorem portOrder_map_of_nodup {l : List (Port × NodeId)} (hports : (l.map Prod.fst).Nodup)
    (f : NodeId → NodeId) : ∀ a ∈ l, ∀ b ∈ l,
      portOrder a b = portOrder (a.1, f a.2) (b.1, f b.2) := by
  intro a ha b hb
  rw [Bool.eq_iff_iff, portOrder_iff, portOrder_iff]
  by_cases hport : a.1 = b.1
  · obtain rfl := List.inj_on_of_nodup_map hports ha hb hport
    simp
  · simp [hport]

theorem inNodes_moveOutgoing (c : g.Consistent) (hi : g.contains i) :
    (g.moveOutgoing source target).inNodes i = (g.inNodes i).map (replaced source target) := by
  set entries := (g.incoming i).map fun e => (e.port, e.source) with hentries
  have hperm : ((g.moveOutgoing source target).incoming i |>.map fun e => (e.port, e.source)).Perm
      (entries.map fun a => (a.1, replaced source target a.2)) := by
    refine ((incoming_moveOutgoing g source target i).map _).trans (.of_eq ?_)
    rw [hentries, List.map_map, List.map_map]
    refine List.map_congr_left fun e _ => ?_
    simp [source_redirect]
  have hports : (entries.map Prod.fst).Nodup := by
    rw [hentries, List.map_map]
    exact c.nodup_ports hi
  calc (g.moveOutgoing source target).inNodes i
      = ((entries.map fun a => (a.1, replaced source target a.2)).mergeSort portOrder).map
          Prod.snd := by rw [inNodes, mergeSort_eq_of_perm hperm]
    _ = ((entries.mergeSort portOrder).map fun a => (a.1, replaced source target a.2)).map
          Prod.snd := by rw [List.map_mergeSort (portOrder_map_of_nodup hports _)]
    _ = (g.inNodes i).map (replaced source target) := by
          rw [inNodes, ← hentries, List.map_map, List.map_map]
          rfl

/-! ## One edge at a time -/

/-- Moves the numbered edges of a list over to a node, in their order: each is taken out of a table,
and an edge from the node is put in for it, under a number that is not in use. -/
inductive MovedOver (target : NodeId) :
    List (Nat × Edge) → List (Nat × Edge) → List (Nat × Edge) → Prop
  | nil {table : List (Nat × Edge)} : MovedOver target [] table table
  | cons {n n' : Nat} {e : Edge} {rest table table' : List (Nat × Edge)} :
      n' ∉ (table.filter (·.1 ≠ n)).map Prod.fst →
      MovedOver target rest ((n', { e with source := target }) :: table.filter (·.1 ≠ n)) table' →
      MovedOver target ((n, e) :: rest) table table'

/-- The number of an edge that was taken out may be used again at once. -/
theorem exists_movedOver (target : NodeId) : ∀ listed table : List (Nat × Edge),
    ∃ table', MovedOver target listed table table'
  | [], table => ⟨table, .nil⟩
  | (n, e) :: rest, table => by
    obtain ⟨table', h⟩ := exists_movedOver target rest
      ((n, { e with source := target }) :: table.filter (·.1 ≠ n))
    exact ⟨table', .cons (by simp) h⟩

theorem filter_not_mem_cons (n : Nat) (ns : List Nat) (table : List (Nat × Edge)) :
    table.filter (·.1 ∉ n :: ns) = (table.filter (·.1 ≠ n)).filter (·.1 ∉ ns) := by
  rw [List.filter_filter]
  refine List.filter_congr fun entry _ => ?_
  simp [Bool.and_comm]

/-- The edges that were listed are in front, in the opposite order, and the others stand as they
did. What is still to be moved is in the table, so that no new edge takes its number. -/
theorem MovedOver.map_snd {listed table table' : List (Nat × Edge)}
    (h : MovedOver target listed table table')
    (hlisted : listed.map Prod.fst ⊆ table.map Prod.fst) (hnodup : (listed.map Prod.fst).Nodup) :
    table'.map Prod.snd = (listed.map fun entry => { entry.2 with source := target }).reverse ++
      (table.filter (·.1 ∉ listed.map Prod.fst)).map Prod.snd := by
  induction h with
  | nil => simp
  | @cons n n' e rest table table' hfresh _ ih =>
    rw [List.map_cons, List.nodup_cons] at hnodup
    rw [List.map_cons, List.cons_subset] at hlisted
    have hkept : rest.map Prod.fst ⊆ (table.filter (·.1 ≠ n)).map Prod.fst := by
      intro m hm
      obtain ⟨entry, hentry, rfl⟩ := List.mem_map.1 (hlisted.2 hm)
      refine List.mem_map_of_mem (List.mem_filter.2 ⟨hentry, ?_⟩)
      rw [decide_eq_true_eq]
      rintro rfl
      exact hnodup.1 hm
    have hn' : n' ∉ rest.map Prod.fst := fun hm => hfresh (hkept hm)
    rw [ih (fun m hm => List.mem_cons_of_mem _ (hkept hm)) hnodup.2, List.filter_cons_of_pos,
      List.map_cons, List.map_cons, List.map_cons, List.reverse_cons, List.append_assoc,
      filter_not_mem_cons]
    · rfl
    · simpa using hn'

theorem MovedOver.eq_moveOutgoing {table table' : List (Nat × Edge)}
    (hedges : table.map Prod.snd = g.edges) (hnodup : (table.map Prod.fst).Nodup)
    (h : MovedOver target (table.filter (·.2.source = source)) table table') :
    table'.map Prod.snd = (g.moveOutgoing source target).edges := by
  have hsub := (List.filter_sublist (p := fun entry : Nat × Edge => entry.2.source = source)
    (l := table)).map Prod.fst
  rw [h.map_snd hsub.subset (hnodup.sublist hsub), moveOutgoing, outgoing, ← hedges]
  congr 1
  · rw [List.filter_map, List.map_map]
    rfl
  · rw [List.filter_map]
    congr 1
    refine List.filter_congr fun entry hentry => ?_
    rw [Function.comp_apply, decide_eq_decide, not_iff_not]
    constructor
    · intro hmem
      obtain ⟨entry', hentry', hn⟩ := List.mem_map.1 hmem
      obtain ⟨hin, hsource⟩ := List.mem_filter.1 hentry'
      obtain rfl := List.inj_on_of_nodup_map hnodup hin hentry hn
      rwa [decide_eq_true_eq] at hsource
    · intro hsource
      exact List.mem_map_of_mem (List.mem_filter.2 ⟨hentry, by rwa [decide_eq_true_eq]⟩)

/-! ## All that a move does -/

/-- `g'` is `g` with the consumers of one node moved over to another. -/
structure Rerouted (g : Graph) (source target : NodeId) (g' : Graph) : Prop where
  slots : g'.slots = g.slots
  vacated : g'.vacated = g.vacated
  names : g'.names = g.names
  edgeCount : g'.edgeCount = g.edgeCount
  outgoing_source : source ≠ target → g'.outgoing source = []
  consumers_target : source ≠ target →
    (g'.consumers target).Perm (g.consumers source ++ g.consumers target)
  consumers_self : source = target → g'.consumers target = g.consumers target
  outgoing_other : ∀ i, i ≠ source → i ≠ target → g'.outgoing i = g.outgoing i
  inNodes : g.validate = .ok () → ∀ i, g.contains i →
    g'.inNodes i = (g.inNodes i).map (replaced source target)
  /-- The edges may be moved one at a time by numbers. -/
  edges : ∀ table : List (Nat × Edge), table.map Prod.snd = g.edges →
    (table.map Prod.fst).Nodup →
    (∃ table', MovedOver target (table.filter (·.2.source = source)) table table') ∧
      ∀ table', MovedOver target (table.filter (·.2.source = source)) table table' →
        table'.map Prod.snd = g'.edges

/-- Between nodes that are there, every consumer is moved and nothing else. -/
theorem rerouteConsumers_effects (hs : g.contains source) (ht : g.contains target) :
    ∃ g', (rerouteConsumers source target).runOn g = (.ok (), g') ∧ Rerouted g source target g' :=
  ⟨g.moveOutgoing source target, rerouteConsumers_runOn hs ht, {
    slots := rfl
    vacated := rfl
    names := rfl
    edgeCount := edgeCount_moveOutgoing g source target
    outgoing_source := by
      intro hne
      rw [outgoing_moveOutgoing, if_neg hne, if_pos rfl, List.append_nil]
    consumers_target := consumers_moveOutgoing_target
    consumers_self := by
      rintro rfl
      exact consumers_moveOutgoing_self g source
    outgoing_other := by
      intro i hsource htarget
      rw [outgoing_moveOutgoing, if_neg htarget, if_neg hsource, List.nil_append]
    inNodes := fun valid _ hi => inNodes_moveOutgoing (validate_eq_ok_iff.1 valid) hi
    edges := fun table hedges hnodup =>
      ⟨exists_movedOver target _ table, fun _ h => h.eq_moveOutgoing hedges hnodup⟩ }⟩

/-- Two tensors. One operation reads the first on two ports and the second between them, another
operation reads the first as well. -/
def interleaved : Graph where
  slots := [some (.ofData "d"), some (.ofData "t"), some (.ofOp "f" "Concat"),
    some (.ofOp "h" "Relu")]
  edges := [⟨0, 3, 0⟩, ⟨0, 2, 2⟩, ⟨1, 2, 1⟩, ⟨0, 2, 0⟩]
  names := [("h", 3), ("f", 2), ("t", 1), ("d", 0)]

theorem interleaved_rerouted : interleaved.contains 0 ∧ interleaved.contains 1 ∧
    ∃ g', (rerouteConsumers 0 1).runOn interleaved = (.ok (), g') ∧ Rerouted interleaved 0 1 g' ∧
      g'.outgoing 0 = [] ∧ interleaved.inNodes 2 = [0, 1, 0] ∧ g'.inNodes 2 = [1, 1, 1] := by
  have hs : interleaved.contains 0 := by decide
  have ht : interleaved.contains 1 := by decide
  have valid : interleaved.validate = .ok () := by decide +kernel
  have hread : interleaved.inNodes 2 = [0, 1, 0] :=
    inNodes_eq_of_sorted (l := [(0, 0), (1, 1), (2, 0)]) (by decide) (by decide)
  obtain ⟨g', run, effect⟩ := rerouteConsumers_effects hs ht
  refine ⟨hs, ht, g', run, effect, effect.outgoing_source (by decide), hread, ?_⟩
  rw [effect.inNodes valid 2 (by decide), hread]
  rfl

end ModelIR.Graph
