import ModelIR.Proofs.Splicing
import ModelIR.Proofs.StaleMatches

/-!
# Edits that fail

An edit of one step fails before it changes anything. A constant takes three steps, and of these
only the first can fail: the name for the tensor is free when it is chosen, and it is still free
when the tensor is added, being longer than the name that the operation took in between; and the two
nodes are of different kinds, in slots of their own. So a constant is refused exactly if its own
name is taken (`exists_addConst_error_iff`), and a graph that refuses an edit is as it was
(`AllOrNothing`).

All that this needs of a graph is that its vacated slots are empty ones. Every mutation leaves them
so, even one that gives a node a name that the index does not know of (`Vacancies.mutate`).
-/

namespace ModelIR

namespace Edit

variable {ε α : Type} {x : Edit ε α} {g : Graph}

/-- If the edit fails, the graph is left exactly as it was. -/
def Atomic (x : Edit ε α) (g : Graph) : Prop :=
  ∀ e g', x.runOn g = (.error e, g') → g' = g

theorem atomic_of_ok {a : α} {g' : Graph} (h : x.runOn g = (.ok a, g')) : x.Atomic g := by
  intro e g'' hfail
  rw [h] at hfail
  simp at hfail

theorem atomic_of_error {e : ε} (h : x.runOn g = (.error e, g)) : x.Atomic g := by
  intro e' g' hfail
  rw [h] at hfail
  exact (Prod.mk.inj hfail).2.symm

end Edit

namespace Graph

variable {g : Graph}

/-! ## Edits of one step -/

theorem atomic_addNode (g : Graph) (node : Node) : (addNode node).Atomic g := by
  rcases h : g.isFree node.name with _ | _
  · exact Edit.atomic_of_error (addNode_runOn_of_taken h)
  · exact Edit.atomic_of_ok (addNode_runOn_of_free h)

theorem atomic_connect (g : Graph) (source target : NodeId) (port : Port) :
    (connect source target port).Atomic g := by
  rcases hs : g.node? source with _ | s
  · refine Edit.atomic_of_error (e := .nodeNotFound source) ?_
    rw [connect, Edit.runOn_get_bind, hs]
    rfl
  rcases ht : g.node? target with _ | t
  · refine Edit.atomic_of_error (e := .nodeNotFound target) ?_
    rw [connect, Edit.runOn_get_bind, hs, ht]
    rfl
  by_cases hk : s.kind = t.kind
  · exact Edit.atomic_of_error (connect_runOn_of_same hs ht hk port)
  · exact Edit.atomic_of_ok (connect_runOn hs ht hk port)

theorem atomic_rerouteConsumers (g : Graph) (source target : NodeId) :
    (rerouteConsumers source target).Atomic g := by
  rcases hs : g.contains source with _ | _
  · refine Edit.atomic_of_error (e := .nodeNotFound source) ?_
    rw [rerouteConsumers, Edit.runOn_get_bind, hs]
    rfl
  rcases ht : g.contains target with _ | _
  · refine Edit.atomic_of_error (e := .nodeNotFound target) ?_
    rw [rerouteConsumers, Edit.runOn_get_bind, hs, ht]
    rfl
  exact Edit.atomic_of_ok (rerouteConsumers_runOn hs ht)

/-! ## Constants -/

theorem addConst_runOn_of_taken {name : String} (taken : g.isFree name = false)
    (values : List Float) :
    (addConst name values).runOn g = (.error (.duplicateName name), g) := by
  have refused : (addNode (constOp name values)).runOn g = (.error (.duplicateName name), g) :=
    addNode_runOn_of_taken taken
  rw [addConst, Edit.runOn_get_bind]
  exact Edit.runOn_bind_error refused _

theorem exists_addConst_error_iff (v : g.Vacancies) (name : String) (values : List Float) :
    (∃ e g', (addConst name values).runOn g = (.error e, g')) ↔ g.isFree name = false := by
  constructor
  · rintro ⟨e, g', hfail⟩
    rcases h : g.isFree name with _ | _
    · rfl
    · obtain ⟨op, data, g'', run, -⟩ := addConst_runOn v h values
      rw [run] at hfail
      simp at hfail
  · intro taken
    exact ⟨_, _, addConst_runOn_of_taken taken values⟩

/-- Whatever edit fails, the graph is left exactly as it was. -/
structure AllOrNothing (g : Graph) : Prop where
  addNode : ∀ node, (Graph.addNode node).Atomic g
  addOp : ∀ name type, (Graph.addOp name type).Atomic g
  addData : ∀ name, (Graph.addData name).Atomic g
  addConst : ∀ name values, (Graph.addConst name values).Atomic g
  connect : ∀ source target port, (Graph.connect source target port).Atomic g
  reroute : ∀ source target, (Graph.rerouteConsumers source target).Atomic g

theorem Vacancies.allOrNothing (v : g.Vacancies) : g.AllOrNothing where
  addNode := atomic_addNode g
  addOp _ _ := atomic_addNode g _
  addData _ := atomic_addNode g _
  addConst name values := by
    rcases h : g.isFree name with _ | _
    · exact Edit.atomic_of_error (addConst_runOn_of_taken h values)
    · obtain ⟨op, data, g', run, -⟩ := addConst_runOn v h values
      exact Edit.atomic_of_ok run
  connect := atomic_connect g
  reroute := atomic_rerouteConsumers g

/-! ## Graphs that mutations lead to -/

theorem vacancies_empty : Vacancies empty := ⟨nofun, nofun, .nil⟩

theorem Vacancies.keeps_addNode (node : Node) : Edit.Keeps Vacancies (addNode node) :=
  keeps_addNode_of fun _ v _ => v.insert node

theorem Vacancies.keeps_connect (source target : NodeId) (port : Port) :
    Edit.Keeps Vacancies (connect source target port) :=
  keeps_connect_of fun _ _ _ v _ _ _ => ⟨v.lt, v.empty, v.nodup⟩

theorem Vacancies.mutate (v : g.Vacancies) (mutation : Mutation) :
    (g.mutate mutation).Vacancies := by
  cases mutation with
  | overwrite i change => exact v.modifyNode i change
  | call call =>
    cases call with
    | addNode node => exact keeps_addNode node g v
    | addOp name type => exact keeps_addNode _ g v
    | addData name => exact keeps_addNode _ g v
    | addConst name values =>
      exact keeps_addConst_of keeps_addNode keeps_connect name values g v
    | remove i => exact v.remove i
    | connect source target port => exact keeps_connect source target port g v
    | reroute source target =>
      exact keeps_rerouteConsumers_of (fun _ v _ _ => ⟨v.lt, v.empty, v.nodup⟩) g v
    | write i change => exact v.modifyNode i _

theorem Vacancies.mutateAll : ∀ (mutations : List Mutation) {g : Graph}, g.Vacancies →
    (g.mutateAll mutations).Vacancies
  | [], _, v => v
  | mutation :: mutations, _, v => Vacancies.mutateAll mutations (v.mutate mutation)

/-- The graph that mutations lead to, one after the other, from the empty one. -/
def mutated (mutations : List Mutation) : Graph :=
  empty.mutateAll mutations

/-- In a graph that mutations lead to, an edit that fails changes nothing. A constant is refused
exactly if its name is taken. Otherwise the graph has its operation more and its tensor, under a
name that was free, and nothing else has changed. The names that are taken are those in the index,
which are the names of the nodes unless one was renamed in place. -/
theorem mutated_allOrNothing (mutations : List Mutation) :
    (mutated mutations).AllOrNothing ∧
    (∀ name values,
      ((∃ e g', (addConst name values).runOn (mutated mutations) = (.error e, g')) ↔
        (mutated mutations).isFree name = false) ∧
      ((mutated mutations).isFree name = true →
        (mutated mutations).isFree ((mutated mutations).uniqueName (name ++ "/data")) = true ∧
        (mutated mutations).uniqueName (name ++ "/data") ≠ name ∧
        ∃ op data g', (addConst name values).runOn (mutated mutations) = (.ok (op, data), g') ∧
          ConstAdded (mutated mutations) name values op data g')) ∧
    ((mutated mutations).WellFormed → ∀ name, (mutated mutations).isFree name = false ↔
      ∃ i node, (mutated mutations).node? i = some node ∧ node.name = name) := by
  have v : (mutated mutations).Vacancies := Vacancies.mutateAll mutations vacancies_empty
  refine ⟨v.allOrNothing, fun name values => ⟨exists_addConst_error_iff v name values, ?_⟩,
    fun h name => h.isFree_eq_false_iff⟩
  intro free
  refine ⟨isFree_uniqueName _ _, fun e => ?_, addConst_runOn v free values⟩
  have hlong := length_lt_dataName (mutated mutations) name
  rw [e] at hlong
  exact Nat.lt_irrefl _ hlong

/-- Nodes that have the names that the tensor of a constant would have, and a slot that is vacated.
-/
def occupied : List Mutation :=
  [.call (.addData "c/data"), .call (.addData "z"), .call (.addOp "c/data_1" "Relu"), removal 1]

theorem occupied_const_added :
    (mutated occupied).isFree "c" = true ∧
    (∃ op data g', (addConst "c" [2.0]).runOn (mutated occupied) = (.ok (op, data), g') ∧
      ConstAdded (mutated occupied) "c" [2.0] op data g' ∧
      g'.node? data = some (constTensor "c/data_2" [2.0])) ∧
    ∃ e, (addConst "c/data" [2.0]).runOn (mutated occupied) = (.error e, mutated occupied) := by
  obtain ⟨whole, hconst, -⟩ := mutated_allOrNothing occupied
  have free : (mutated occupied).isFree "c" = true := by decide +kernel
  have taken : (mutated occupied).isFree "c/data" = false := by decide +kernel
  have hname : (mutated occupied).uniqueName ("c" ++ "/data") = "c/data_2" := by decide +kernel
  refine ⟨free, ?_, ?_⟩
  · obtain ⟨-, -, op, data, g', run, added⟩ := (hconst "c" [2.0]).2 free
    exact ⟨op, data, g', run, added, hname ▸ added.data_eq⟩
  · obtain ⟨e, g', run⟩ := (hconst "c/data" [2.0]).1.2 taken
    obtain rfl := whole.addConst _ _ e g' run
    exact ⟨e, run⟩

end Graph

end ModelIR
