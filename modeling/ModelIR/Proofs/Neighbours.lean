import Mathlib.Data.List.Perm.Basic
import ModelIR.Graph.Basic

/-!
# Neighbours

What a node leads to is listed in an order of its own, so the list depends on the edges only up to
their order (`consumers_eq_of_perm`), and its head is the first output of the node
(`head?_outNodes_iff`).
-/

namespace ModelIR.Graph

variable {g g' : Graph} {i j : NodeId}

/-- Where an edge leads to, as the order of neighbours sees it. -/
def landing (e : Edge) : Port × NodeId :=
  (e.port, e.target)

theorem portOrder_iff {a b : Port × NodeId} :
    portOrder a b = true ↔ a.1 < b.1 ∨ (a.1 = b.1 ∧ a.2 ≤ b.2) := by
  simp [portOrder]

theorem portOrder_trans (a b c : Port × NodeId) (hab : portOrder a b = true)
    (hbc : portOrder b c = true) : portOrder a c = true := by
  rw [portOrder_iff] at *
  rcases hab with hab | ⟨hab, hab'⟩
  · rcases hbc with hbc | ⟨hbc, -⟩
    · exact .inl (Nat.lt_trans hab hbc)
    · exact .inl (hbc ▸ hab)
  · rcases hbc with hbc | ⟨hbc, hbc'⟩
    · exact .inl (hab ▸ hbc)
    · exact .inr ⟨hab.trans hbc, Nat.le_trans hab' hbc'⟩

theorem portOrder_total (a b : Port × NodeId) : (portOrder a b || portOrder b a) = true := by
  rw [Bool.or_eq_true, portOrder_iff, portOrder_iff]
  rcases Nat.lt_trichotomy a.1 b.1 with h | h | h
  · exact .inl (.inl h)
  · rcases Nat.le_total a.2 b.2 with h' | h'
    · exact .inl (.inr ⟨h, h'⟩)
    · exact .inr (.inr ⟨h.symm, h'⟩)
  · exact .inr (.inl h)

theorem portOrder_antisymm {a b : Port × NodeId} (hab : portOrder a b = true)
    (hba : portOrder b a = true) : a = b := by
  rw [portOrder_iff] at *
  rcases hab with hab | ⟨hab, hab'⟩
  · rcases hba with hba | ⟨hba, -⟩
    · exact absurd (Nat.lt_trans hab hba) (Nat.lt_irrefl _)
    · exact absurd hab (hba ▸ Nat.lt_irrefl _)
  · rcases hba with hba | ⟨-, hba'⟩
    · exact absurd hba (hab ▸ Nat.lt_irrefl _)
    · exact Prod.ext hab (Nat.le_antisymm hab' hba')

theorem mergeSort_eq_of_perm {l l' : List (Port × NodeId)} (h : l.Perm l') :
    l.mergeSort portOrder = l'.mergeSort portOrder := by
  have hsorted := List.pairwise_mergeSort portOrder_trans portOrder_total
  refine List.Perm.eq_of_pairwise (fun a b _ _ hab hba => portOrder_antisymm hab hba) (hsorted l)
    (hsorted l') ?_
  exact (List.mergeSort_perm _ _).trans (h.trans (List.mergeSort_perm _ _).symm)

theorem consumers_eq_of_perm
    (h : ((g.outgoing i).map landing).Perm ((g'.outgoing j).map landing)) :
    g.consumers i = g'.consumers j := by
  change (((g.outgoing i).map landing).mergeSort portOrder).map Prod.swap =
    (((g'.outgoing j).map landing).mergeSort portOrder).map Prod.swap
  rw [mergeSort_eq_of_perm h]

theorem consumers_perm (g : Graph) (i : NodeId) :
    (g.consumers i).Perm ((g.outgoing i).map fun e => (e.target, e.port)) := by
  have h := (List.mergeSort_perm ((g.outgoing i).map landing) portOrder).map Prod.swap
  rw [List.map_map] at h
  exact h

theorem mem_consumers {c : NodeId × Port} : c ∈ g.consumers i ↔ ⟨i, c.1, c.2⟩ ∈ g.edges := by
  rw [(consumers_perm g i).mem_iff, List.mem_map]
  constructor
  · rintro ⟨e, he, rfl⟩
    obtain ⟨he, hi⟩ := List.mem_filter.1 he
    rw [decide_eq_true_eq] at hi
    exact hi ▸ he
  · intro h
    exact ⟨_, List.mem_filter.2 ⟨h, by simp⟩, rfl⟩

theorem mem_outNodes {d : NodeId} : d ∈ g.outNodes i ↔ ∃ port, ⟨i, d, port⟩ ∈ g.edges := by
  simp only [outNodes, List.mem_map, mem_consumers]
  constructor
  · rintro ⟨c, hc, rfl⟩
    exact ⟨c.2, hc⟩
  · rintro ⟨port, h⟩
    exact ⟨(d, port), h, rfl⟩

theorem mem_outNodes_iff_hasEdge {d : NodeId} : d ∈ g.outNodes i ↔ g.hasEdge i d = true := by
  rw [mem_outNodes, hasEdge, List.any_eq_true]
  constructor
  · rintro ⟨port, h⟩
    exact ⟨_, h, by simp⟩
  · rintro ⟨e, he, h⟩
    simp only [Bool.and_eq_true, decide_eq_true_eq] at h
    obtain ⟨rfl, rfl⟩ := h
    exact ⟨e.port, he⟩

/-- The edges may stand in any order. -/
theorem consumers_eq_of_sorted {l : List (Port × NodeId)}
    (h : ((g.outgoing i).map landing).Perm l) (hl : l.Pairwise fun a b => portOrder a b = true) :
    g.consumers i = l.map Prod.swap := by
  change (((g.outgoing i).map landing).mergeSort portOrder).map Prod.swap = l.map Prod.swap
  rw [mergeSort_eq_of_perm h, List.mergeSort_of_pairwise hl]

theorem inNodes_eq_of_sorted {l : List (Port × NodeId)}
    (h : ((g.incoming i).map fun e => (e.port, e.source)).Perm l)
    (hl : l.Pairwise fun a b => portOrder a b = true) : g.inNodes i = l.map Prod.snd := by
  rw [inNodes, mergeSort_eq_of_perm h, List.mergeSort_of_pairwise hl]

theorem consumers_eq_singleton {c : NodeId × Port} (h : g.outgoing i = [⟨i, c.1, c.2⟩]) :
    g.consumers i = [c] := by
  refine consumers_eq_of_sorted (l := [c.swap]) ?_ (List.pairwise_singleton _ _)
  rw [h]
  exact .refl _

theorem outNodes_eq_of_consumers (h : g.consumers i = g'.consumers j) :
    g.outNodes i = g'.outNodes j := by
  rw [outNodes, outNodes, h]

theorem outNodes_eq_nil_iff : g.outNodes i = [] ↔ g.outgoing i = [] := by
  rw [← List.length_eq_zero_iff, outNodes, List.length_map, (consumers_perm g i).length_eq,
    List.length_map, List.length_eq_zero_iff]

/-! ## The first output -/

/-- A node that another one leads to on its lowest port, and of those on this port the one with the
lowest index. -/
def FirstOutput (g : Graph) (i d : NodeId) : Prop :=
  ∃ port, ⟨i, d, port⟩ ∈ g.edges ∧
    ∀ e ∈ g.edges, e.source = i → port < e.port ∨ (port = e.port ∧ d ≤ e.target)

/-- The first neighbour comes before all others. -/
theorem portOrder_of_consumers_eq_cons {c : NodeId × Port} {rest : List (NodeId × Port)}
    (h : g.consumers i = c :: rest) {e : Edge} (he : e ∈ g.edges) (hsource : e.source = i) :
    portOrder c.swap (landing e) = true := by
  have hsorted : (g.consumers i).Pairwise fun a b => portOrder a.swap b.swap = true :=
    List.pairwise_map.2 (List.pairwise_mergeSort portOrder_trans portOrder_total _)
  rw [h, List.pairwise_cons] at hsorted
  have hmem : (landing e).swap ∈ g.consumers i := mem_consumers.2 (hsource ▸ he)
  rw [h] at hmem
  rcases List.mem_cons.1 hmem with hfirst | hrest
  · rw [← hfirst, Prod.swap_swap]
    exact portOrder_iff.2 (.inr ⟨rfl, Nat.le_refl _⟩)
  · exact hsorted.1 _ hrest

theorem head?_outNodes_iff {d : NodeId} : (g.outNodes i).head? = some d ↔ g.FirstOutput i d := by
  rw [outNodes]
  rcases h : g.consumers i with _ | ⟨c, rest⟩
  · refine iff_of_false (by simp) ?_
    rintro ⟨port, he, -⟩
    have hmem : (d, port) ∈ g.consumers i := mem_consumers.2 he
    simp [h] at hmem
  have hc : ⟨i, c.1, c.2⟩ ∈ g.edges := mem_consumers.1 (h ▸ List.mem_cons_self)
  rw [List.map_cons, List.head?_cons, Option.some.injEq]
  constructor
  · rintro rfl
    refine ⟨c.2, hc, fun e he hsource => ?_⟩
    exact portOrder_iff.1 (portOrder_of_consumers_eq_cons h he hsource)
  · rintro ⟨port, he, hfirst⟩
    have hle := portOrder_of_consumers_eq_cons h he rfl
    exact congrArg Prod.snd (portOrder_antisymm hle (portOrder_iff.2 (hfirst _ hc rfl)))

theorem exists_firstOutput (h : g.outNodes i ≠ []) : ∃ d, g.FirstOutput i d :=
  ⟨_, head?_outNodes_iff.1 (List.head?_eq_some_head h)⟩

end ModelIR.Graph
