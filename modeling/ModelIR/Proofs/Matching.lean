import Mathlib.Data.List.Forall2
import ModelIR.Graph.Pattern
import ModelIR.Proofs.GraphInvariant

/-!
# Matches

The search for matches gives one label after the other a node and goes back where an edge of the
pattern is missing already. What it leaves out that way could not have become a match, since an edge
that is missing stays missing whatever nodes the other labels get (`edgesHold_of_prefix`). So it
finds the nodes of each embedding of the pattern and nothing else (`mem_extensions`), and as it
tries the nodes in ascending order it finds them in ascending order (`pairwise_extensions`).
-/

namespace ModelIR

/-- The node in a slot meets a condition. -/
def Graph.Suits (g : Graph) (matcher : NodeMatcher) (i : NodeId) : Prop :=
  ∃ node, g.node? i = some node ∧ matcher.accepts node = true

/-- The nodes of a match, in the order of its labels. -/
def Match.nodes (m : Match) : List NodeId :=
  m.bindings.map Prod.snd

/-- A match binds the labels of a pattern and no others, no two of them to one node, each to a node
that suits it, and wherever the pattern has an edge the graph has one between the nodes of its
labels. -/
structure Match.Embeds (m : Match) (p : Pattern) (g : Graph) : Prop where
  labels : m.bindings.map Prod.fst = p.labels
  injective : m.nodes.Nodup
  suits : ∀ entry ∈ p.nodes, ∃ i, m.node? entry.1 = some i ∧ g.Suits entry.2 i
  edges : ∀ e ∈ p.edges, ∃ source target, m.node? e.1 = some source ∧ m.node? e.2 = some target ∧
    g.hasEdge source target = true

namespace Pattern

variable {p : Pattern} {g : Graph} {assigned l : List NodeId} {matchers : List NodeMatcher}
  {labels : List String} {i : NodeId} {m : Match}

/-! ## The search -/

theorem edgesHold_iff : p.edgesHold g l = true ↔ ∀ e ∈ p.edges, ∀ source target,
    (p.position? e.1).bind (l[·]?) = some source → (p.position? e.2).bind (l[·]?) = some target →
      g.hasEdge source target = true := by
  rw [edgesHold, List.all_eq_true]
  refine forall₂_congr fun e _ => ?_
  rcases (p.position? e.1).bind (l[·]?) with _ | source
  · simp
  rcases (p.position? e.2).bind (l[·]?) with _ | target <;> simp

/-- What is missing between the first nodes is missing between all of them. -/
theorem edgesHold_of_prefix (hpre : assigned <+: l) (h : p.edgesHold g l = true) :
    p.edgesHold g assigned = true := by
  have hbind : ∀ (k? : Option Nat) (i : NodeId), k?.bind (assigned[·]?) = some i →
      k?.bind (l[·]?) = some i := by
    intro k? i hi
    obtain ⟨k, rfl, hk⟩ := Option.bind_eq_some_iff.1 hi
    obtain ⟨rest, rfl⟩ := hpre
    rw [Option.bind_some, List.getElem?_append_left (List.getElem?_eq_some_iff.1 hk).1, hk]
  rw [edgesHold_iff] at *
  exact fun e he source target hsource htarget =>
    h e he source target (hbind _ _ hsource) (hbind _ _ htarget)

theorem prefix_of_mem_extensions :
    ∀ {matchers : List NodeMatcher} {assigned : List NodeId},
      l ∈ p.extensions g assigned matchers → assigned <+: l
  | [], assigned, h => by
    rw [extensions, List.mem_singleton] at h
    exact h ▸ List.prefix_rfl
  | matcher :: matchers, assigned, h => by
    rw [extensions, List.mem_flatMap] at h
    obtain ⟨i, -, hl⟩ := h
    exact (List.prefix_append _ _).trans (prefix_of_mem_extensions hl)

/-- The ways to go on are the ways to give the matchers that are left nodes of their own that suit
them, so that all edges are there. -/
theorem mem_extensions : ∀ {matchers : List NodeMatcher} {assigned l : List NodeId},
    p.edgesHold g assigned = true → (l ∈ p.extensions g assigned matchers ↔
      ∃ chosen, l = assigned ++ chosen ∧ List.Forall₂ g.Suits matchers chosen ∧ chosen.Nodup ∧
        (∀ i ∈ chosen, i ∉ assigned) ∧ p.edgesHold g l = true)
  | [], assigned, l, hold => by
    rw [extensions, List.mem_singleton]
    constructor
    · rintro rfl
      exact ⟨[], (List.append_nil _).symm, .nil, .nil, by simp, hold⟩
    · rintro ⟨chosen, rfl, hsuits, -⟩
      rw [List.forall₂_nil_left_iff.1 hsuits, List.append_nil]
  | matcher :: matchers, assigned, l, hold => by
    have hcandidate : ∀ i, i ∈ g.nodeIds.filter (fun i => !assigned.contains i &&
        (g.node? i).any matcher.accepts && p.edgesHold g (assigned ++ [i])) ↔
        i ∉ assigned ∧ g.Suits matcher i ∧ p.edgesHold g (assigned ++ [i]) = true := by
      intro i
      rw [List.mem_filter, Graph.mem_nodeIds, Graph.contains_iff, Graph.Suits]
      rcases g.node? i with _ | node <;> simp [and_assoc]
    rw [extensions, List.mem_flatMap]
    constructor
    · rintro ⟨i, hi, hl⟩
      obtain ⟨hnew, hsuits, hnext⟩ := (hcandidate i).1 hi
      obtain ⟨chosen, rfl, hchosen, hnodup, hnot, hedges⟩ := (mem_extensions hnext).1 hl
      refine ⟨i :: chosen, by simp, .cons hsuits hchosen, ?_, ?_, hedges⟩
      · exact List.nodup_cons.2 ⟨fun hmem => hnot i hmem (by simp), hnodup⟩
      · refine List.forall_mem_cons.2 ⟨hnew, fun j hj hassigned => ?_⟩
        exact hnot j hj (List.mem_append_left _ hassigned)
    · rintro ⟨chosen, rfl, hchosen, hnodup, hnot, hedges⟩
      obtain ⟨i, rest, hi, hrest, rfl⟩ := List.forall₂_cons_left_iff.1 hchosen
      obtain ⟨hfirst, hnodup⟩ := List.nodup_cons.1 hnodup
      obtain ⟨hnew, hnot⟩ := List.forall_mem_cons.1 hnot
      have happend : assigned ++ i :: rest = assigned ++ [i] ++ rest := by simp
      have hnext : p.edgesHold g (assigned ++ [i]) = true :=
        edgesHold_of_prefix (happend ▸ List.prefix_append _ _) hedges
      refine ⟨i, (hcandidate i).2 ⟨hnew, hi, hnext⟩, (mem_extensions hnext).2
        ⟨rest, happend, hrest, hnodup, fun j hj hmem => ?_, hedges⟩⟩
      rcases List.mem_append.1 hmem with hmem | hmem
      · exact hnot j hj hmem
      · exact hfirst (List.mem_singleton.1 hmem ▸ hj)

theorem pairwise_nodeIds (g : Graph) : g.nodeIds.Pairwise (· < ·) :=
  List.pairwise_lt_range.filter _

/-- The nodes are tried in ascending order. -/
theorem pairwise_extensions : ∀ (matchers : List NodeMatcher) (assigned : List NodeId),
    (p.extensions g assigned matchers).Pairwise (· < ·)
  | [], assigned => List.pairwise_singleton _ _
  | matcher :: matchers, assigned => by
    rw [extensions, List.pairwise_flatMap]
    refine ⟨fun i _ => pairwise_extensions matchers _, ?_⟩
    refine ((pairwise_nodeIds g).filter _).imp fun {i j} hij l hl l' hl' => ?_
    obtain ⟨rest, rfl⟩ := prefix_of_mem_extensions hl
    obtain ⟨rest', rfl⟩ := prefix_of_mem_extensions hl'
    rw [List.append_assoc, List.append_assoc]
    exact List.append_left_lt (.rel hij)

/-! ## Bindings -/

theorem bindings_ofLists : ∀ {labels : List String} {l : List NodeId}, labels.Nodup →
    (Match.ofLists labels l).bindings = labels.zip l
  | [], _, _ => by simp [Match.ofLists]
  | _ :: _, [], _ => by simp [Match.ofLists]
  | label :: labels, i :: l, hnodup => by
    obtain ⟨hlabel, hnodup⟩ := List.nodup_cons.1 hnodup
    have ih := bindings_ofLists (l := l) hnodup
    have hnew : ((Match.ofLists labels l).bindings.lookup label).isSome = false := by
      rw [ih, Option.isSome_eq_false_iff, Option.isNone_iff_eq_none, List.lookup_eq_none_iff]
      rintro ⟨other, j⟩ hmem
      rw [bne_iff_ne]
      rintro rfl
      exact hlabel (List.of_mem_zip hmem).1
    rw [ih] at hnew
    simp only [Match.ofLists, hnew, ih, Bool.false_eq_true, ↓reduceIte, List.zip_cons_cons]

theorem lookup_zip (a : String) : ∀ (labels : List String) (l : List NodeId),
    (labels.zip l).lookup a = (labels.findIdx? (· = a)).bind (l[·]?)
  | [], _ => rfl
  | label :: labels, [] => by
    rcases List.findIdx? (· = a) (label :: labels) with _ | k <;> simp
  | label :: labels, i :: l => by
    rw [List.zip_cons_cons, List.lookup_cons, List.findIdx?_cons]
    by_cases ha : label = a
    · simp [ha]
    · rw [beq_false_of_ne (Ne.symm ha), lookup_zip a labels l]
      simp only [ha, decide_false, Bool.false_eq_true, ↓reduceIte]
      rcases labels.findIdx? (· = a) with _ | k <;> simp

theorem node?_ofLists (hnodup : p.labels.Nodup) (label : String) :
    (Match.ofLists p.labels l).node? label = (p.position? label).bind (l[·]?) := by
  rw [Match.node?, bindings_ofLists hnodup, lookup_zip, position?]

/-- Nodes in the order of the labels suit the matchers if each label's node does. -/
theorem forall₂_suits_iff : ∀ {nodes : List (String × NodeMatcher)} {l : List NodeId},
    (nodes.map Prod.fst).Nodup → (List.Forall₂ g.Suits (nodes.map Prod.snd) l ↔
      nodes.length = l.length ∧ ∀ entry ∈ nodes, ∃ i,
        ((nodes.map Prod.fst).zip l).lookup entry.1 = some i ∧ g.Suits entry.2 i)
  | [], [], _ => by simp
  | [], _ :: _, _ => by simp
  | _ :: _, [], _ => by simp
  | (label, matcher) :: nodes, i :: l, hnodup => by
    rw [List.map_cons, List.nodup_cons] at hnodup
    obtain ⟨hlabel, hnodup⟩ := hnodup
    have hrest : ∀ entry ∈ nodes,
        (((label, i) :: (nodes.map Prod.fst).zip l).lookup entry.1 =
          ((nodes.map Prod.fst).zip l).lookup entry.1) := by
      intro entry hentry
      rw [List.lookup_cons, beq_false_of_ne]
      rintro rfl
      exact hlabel (List.mem_map.2 ⟨entry, hentry, rfl⟩)
    simp only [List.map_cons, List.forall₂_cons, List.zip_cons_cons, List.length_cons,
      List.forall_mem_cons, forall₂_suits_iff hnodup, Nat.add_right_cancel_iff]
    rw [List.lookup_cons, beq_self_eq_true]
    constructor
    · rintro ⟨hi, hlength, hall⟩
      refine ⟨hlength, ⟨i, rfl, hi⟩, fun entry hentry => ?_⟩
      rw [hrest entry hentry]
      exact hall entry hentry
    · rintro ⟨hlength, ⟨j, hj, hi⟩, hall⟩
      obtain rfl := Option.some.inj hj
      refine ⟨hi, hlength, fun entry hentry => ?_⟩
      rw [← hrest entry hentry]
      exact hall entry hentry

theorem map_fst_bindings_ofLists (hnodup : p.labels.Nodup) (hlength : p.nodes.length = l.length) :
    (Match.ofLists p.labels l).bindings.map Prod.fst = p.labels := by
  rw [bindings_ofLists hnodup, List.map_fst_zip]
  exact Nat.le_of_eq ((List.length_map Prod.fst).trans hlength)

theorem nodes_ofLists (hnodup : p.labels.Nodup) (hlength : p.nodes.length = l.length) :
    (Match.ofLists p.labels l).nodes = l := by
  rw [Match.nodes, bindings_ofLists hnodup, List.map_snd_zip]
  exact Nat.le_of_eq (hlength.symm.trans (List.length_map Prod.fst).symm)

/-- The bindings of a match are its labels with its nodes. -/
theorem eq_ofLists (hnodup : p.labels.Nodup) (hlabels : m.bindings.map Prod.fst = p.labels) :
    m = Match.ofLists p.labels m.nodes := by
  obtain ⟨bindings⟩ := m
  rw [Match.mk.injEq, bindings_ofLists hnodup, ← hlabels, Match.nodes]
  exact List.zip_of_prod rfl rfl

/-! ## The matches of a pattern -/

theorem isSome_position? {label : String} :
    (p.position? label).isSome = true ↔ label ∈ p.labels := by
  simp [position?]

theorem edgesAreLabelled_iff :
    p.edgesAreLabelled = true ↔ ∀ e ∈ p.edges, e.1 ∈ p.labels ∧ e.2 ∈ p.labels := by
  rw [edgesAreLabelled, List.all_eq_true]
  refine forall₂_congr fun e _ => ?_
  rw [Bool.and_eq_true, isSome_position?, isSome_position?]

theorem exists_node?_ofLists (hnodup : p.labels.Nodup) (hlength : p.nodes.length = l.length)
    {label : String} (hlabel : label ∈ p.labels) :
    ∃ i, (Match.ofLists p.labels l).node? label = some i := by
  obtain ⟨k, hk⟩ := Option.isSome_iff_exists.1 (isSome_position?.2 hlabel)
  have hlt : k < l.length := by
    rw [← hlength, ← List.length_map Prod.fst]
    exact (List.findIdx?_eq_some_iff_getElem.1 hk).1
  refine ⟨l[k], ?_⟩
  rw [node?_ofLists hnodup, hk, Option.bind_some, List.getElem?_eq_getElem hlt]

/-- What the search gives to labels embeds the pattern. -/
theorem embeds_ofLists_iff (hnodup : p.labels.Nodup)
    (declared : ∀ e ∈ p.edges, e.1 ∈ p.labels ∧ e.2 ∈ p.labels)
    (hlength : p.nodes.length = l.length) : (Match.ofLists p.labels l).Embeds p g ↔
      List.Forall₂ g.Suits (p.nodes.map Prod.snd) l ∧ l.Nodup ∧ p.edgesHold g l = true := by
  have hsuits : List.Forall₂ g.Suits (p.nodes.map Prod.snd) l ↔
      ∀ entry ∈ p.nodes, ∃ i,
        (Match.ofLists p.labels l).node? entry.1 = some i ∧ g.Suits entry.2 i := by
    rw [forall₂_suits_iff hnodup, and_iff_right hlength]
    simp only [Match.node?, bindings_ofLists hnodup]
    rfl
  rw [edgesHold_iff, hsuits]
  simp only [← node?_ofLists hnodup]
  constructor
  · intro h
    refine ⟨h.suits, nodes_ofLists hnodup hlength ▸ h.injective, fun e he i j hi hj => ?_⟩
    obtain ⟨source, target, hsource, htarget, hedge⟩ := h.edges e he
    rw [hsource, Option.some.injEq] at hi
    rw [htarget, Option.some.injEq] at hj
    rwa [← hi, ← hj]
  · rintro ⟨suits, injective, edges⟩
    refine ⟨map_fst_bindings_ofLists hnodup hlength, ?_, suits, fun e he => ?_⟩
    · rwa [nodes_ofLists hnodup hlength]
    · obtain ⟨source, hsource⟩ := exists_node?_ofLists hnodup hlength (declared e he).1
      obtain ⟨target, htarget⟩ := exists_node?_ofLists hnodup hlength (declared e he).2
      exact ⟨source, target, hsource, htarget, edges e he source target hsource htarget⟩

theorem mem_extensions_nil : l ∈ p.extensions g [] (p.nodes.map Prod.snd) ↔
    List.Forall₂ g.Suits (p.nodes.map Prod.snd) l ∧ l.Nodup ∧ p.edgesHold g l = true := by
  have hnil : p.edgesHold g [] = true := by
    rw [edgesHold_iff]
    intro e _ source target hsource
    simp at hsource
  rw [mem_extensions hnil]
  constructor
  · rintro ⟨chosen, rfl, hsuits, hnodup, -, hedges⟩
    exact ⟨hsuits, hnodup, hedges⟩
  · rintro ⟨hsuits, hnodup, hedges⟩
    exact ⟨l, rfl, hsuits, hnodup, by simp, hedges⟩

theorem length_of_mem_extensions (h : l ∈ p.extensions g [] (p.nodes.map Prod.snd)) :
    p.nodes.length = l.length := by
  rw [← (mem_extensions_nil.1 h).1.length_eq, List.length_map]

theorem findMatches_eq (hnodes : p.nodes ≠ []) (labelled : p.edgesAreLabelled = true) (g : Graph) :
    p.findMatches g =
      (p.extensions g [] (p.nodes.map Prod.snd)).map (Match.ofLists p.labels) := by
  rw [findMatches, labelled, List.isEmpty_eq_false_iff.2 hnodes]
  rfl

/-- The matches ascend by their nodes, since what the search finds does. -/
theorem pairwise_findMatches (hnodes : p.nodes ≠ []) (hnodup : p.labels.Nodup)
    (labelled : p.edgesAreLabelled = true) (g : Graph) :
    (p.findMatches g).Pairwise fun m m' => m.nodes < m'.nodes := by
  rw [findMatches_eq hnodes labelled, List.pairwise_map]
  refine (pairwise_extensions _ _).imp_of_mem fun {l l'} hl hl' hlt => ?_
  rwa [nodes_ofLists hnodup (length_of_mem_extensions hl),
    nodes_ofLists hnodup (length_of_mem_extensions hl')]

theorem length_nodes_of_embeds (h : m.Embeds p g) : p.nodes.length = m.nodes.length := by
  have hlabels := congrArg List.length h.labels
  rw [List.length_map, labels, List.length_map] at hlabels
  rw [Match.nodes, List.length_map, hlabels]

theorem mem_findMatches_iff (hnodes : p.nodes ≠ []) (hnodup : p.labels.Nodup)
    (declared : ∀ e ∈ p.edges, e.1 ∈ p.labels ∧ e.2 ∈ p.labels) :
    m ∈ p.findMatches g ↔ m.Embeds p g := by
  rw [findMatches_eq hnodes (edgesAreLabelled_iff.2 declared), List.mem_map]
  constructor
  · rintro ⟨l, hl, rfl⟩
    exact (embeds_ofLists_iff hnodup declared (length_of_mem_extensions hl)).2
      (mem_extensions_nil.1 hl)
  · intro h
    have hlength := length_nodes_of_embeds h
    have heq := eq_ofLists hnodup h.labels
    rw [heq] at h
    exact ⟨m.nodes, mem_extensions_nil.2 ((embeds_ofLists_iff hnodup declared hlength).1 h),
      heq.symm⟩

theorem findMatches_eq_nil
    (h : p.nodes = [] ∨ ∃ e ∈ p.edges, e.1 ∉ p.labels ∨ e.2 ∉ p.labels) (g : Graph) :
    p.findMatches g = [] := by
  rw [findMatches]
  rcases h with hnil | ⟨e, he, hlabel⟩
  · rw [hnil]
    rfl
  · have hlabelled : p.edgesAreLabelled = false := by
      rw [Bool.eq_false_iff]
      intro h
      have := edgesAreLabelled_iff.1 h e he
      tauto
    rw [hlabelled, Bool.not_false, Bool.or_true]
    rfl

/-- The matches of a pattern are its embeddings, each once, and they ascend lexicographically by the
nodes given to the labels. A pattern without nodes, or with an edge at a label that it does not
declare, has no match. -/
theorem findMatches_embeddings (p : Pattern) (g : Graph) :
    (p.nodes ≠ [] → p.labels.Nodup → (∀ e ∈ p.edges, e.1 ∈ p.labels ∧ e.2 ∈ p.labels) →
      (∀ m, m ∈ p.findMatches g ↔ m.Embeds p g) ∧ (p.findMatches g).Nodup ∧
        (p.findMatches g).Pairwise fun m m' => m.nodes < m'.nodes) ∧
    ((p.nodes = [] ∨ ∃ e ∈ p.edges, e.1 ∉ p.labels ∨ e.2 ∉ p.labels) → p.findMatches g = []) := by
  refine ⟨fun hnodes hnodup declared => ?_, fun h => findMatches_eq_nil h g⟩
  have hordered := pairwise_findMatches hnodes hnodup (edgesAreLabelled_iff.2 declared) g
  refine ⟨fun m => mem_findMatches_iff hnodes hnodup declared, hordered.imp ?_, hordered⟩
  rintro m _ hlt rfl
  exact List.lt_irrefl _ hlt

/-- A tensor and two operations that read it. One of the edges is asked for twice. -/
def forkPattern : Pattern where
  nodes := [("tensor", .data), ("left", .op "Relu"), ("right", .op "Relu")]
  edges := [("tensor", "left"), ("tensor", "right"), ("tensor", "left")]

/-- A tensor that one operation reads twice and another one once, and a vacated slot. -/
def forkGraph : Graph where
  slots := [some (.ofData "d"), none, some (.ofOp "f" "Relu"), some (.ofOp "h" "Relu")]
  vacated := [1]
  edges := [⟨0, 3, 0⟩, ⟨0, 2, 1⟩, ⟨0, 2, 0⟩]
  names := [("h", 3), ("f", 2), ("d", 0)]

/-- The two operations can be told apart by their labels alone, so that there are two embeddings. -/
theorem forkGraph_embeddings : forkPattern.labels.Nodup ∧
    (∀ e ∈ forkPattern.edges, e.1 ∈ forkPattern.labels ∧ e.2 ∈ forkPattern.labels) ∧
    ∀ m : Match, m.Embeds forkPattern forkGraph ↔
      m = ⟨[("tensor", 0), ("left", 2), ("right", 3)]⟩ ∨
        m = ⟨[("tensor", 0), ("left", 3), ("right", 2)]⟩ := by
  have hnodup : forkPattern.labels.Nodup := by decide
  have declared : ∀ e ∈ forkPattern.edges,
      e.1 ∈ forkPattern.labels ∧ e.2 ∈ forkPattern.labels := by decide
  have hfound : forkPattern.findMatches forkGraph =
      [⟨[("tensor", 0), ("left", 2), ("right", 3)]⟩,
        ⟨[("tensor", 0), ("left", 3), ("right", 2)]⟩] := by decide +kernel
  obtain ⟨hmem, -⟩ := (findMatches_embeddings forkPattern forkGraph).1 (by decide) hnodup declared
  refine ⟨hnodup, declared, fun m => ?_⟩
  rw [← hmem, hfound]
  simp

end Pattern

end ModelIR
