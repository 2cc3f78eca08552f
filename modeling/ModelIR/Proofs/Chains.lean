import ModelIR.Proofs.SplicedGraph

/-!
# Chains of stages

A chain leads from a tensor through new operations, each the only reader of the tensor before it, to
a last tensor. A splice behind the first tensor puts its stage at the head of the chain
(`Chain.spliced_self`), and one behind another tensor of the old graph leaves the chain as it is
(`Chain.spliced_other`).
-/

namespace ModelIR.Graph

variable {g₀ g g' : Graph} {data d op out last : NodeId} {stage applied : Stage} {n : Inserted}
  {node : Node}

/-- `operand` is the tensor of a constant, and both are not in `g₀`. -/
def IsOperand (g₀ g : Graph) (operand : NodeId) (values : List Float) : Prop :=
  g₀.node? operand = none ∧ ∃ const, g₀.node? const = none ∧
    (∃ name, g.node? const = some (constOp name values)) ∧
    (∃ name, g.node? operand = some (constTensor name values)) ∧
    g.incoming operand = [⟨const, operand, 0⟩]

/-- `op` is an operation that is not in `g₀`; it reads a tensor on its first port and a constant on
its second, and nothing else, and it writes `out` and nothing else. -/
structure Applied (g₀ g : Graph) (stage : Stage) (data op out : NodeId) : Prop where
  op_new : g₀.node? op = none
  out_new : g₀.node? out = none
  op_eq : ∃ name, g.node? op = some (.ofOp name stage.type)
  out_kind : g.kind? out = some .data
  inputs : ∃ operand, (g.incoming op).Perm [⟨data, op, 0⟩, ⟨operand, op, 1⟩] ∧
    IsOperand g₀ g operand stage.operand
  output : g.outgoing op = [⟨op, out, 0⟩]

/-- Stages lead from a tensor to another. Each tensor before the last is read by the next operation
alone. -/
def Chain (g₀ g : Graph) (data : NodeId) : List Stage → NodeId → Prop
  | [], last => data = last
  | stage :: stages, last =>
    ∃ op out, g.consumers data = [(op, 0)] ∧ Applied g₀ g stage data op out ∧
      Chain g₀ g out stages last

theorem ne_of_new {i j : NodeId} (hi : g.node? i = none) (hj : g.node? j = some node) : i ≠ j := by
  rintro rfl
  rw [hi] at hj
  simp at hj

theorem IsOperand.spliced {operand : NodeId} {values : List Float}
    (s : Spliced g data stage n g') (hdata : g₀.node? data = some node)
    (h : IsOperand g₀ g operand values) : IsOperand g₀ g' operand values := by
  obtain ⟨hnew, const, hconst, ⟨name₁, h₁⟩, ⟨name₂, h₂⟩, hin⟩ := h
  refine ⟨hnew, const, hconst, ⟨name₁, s.node?_old h₁⟩, ⟨name₂, s.node?_old h₂⟩, ?_⟩
  have hperm := s.incoming_old h₂
  rw [hin, List.map_singleton, redirect_of_ne (ne_of_new hconst hdata)] at hperm
  exact List.perm_singleton.1 hperm

/-- An operation goes on to read what it reads, but behind a splice what the splice writes. -/
theorem Applied.spliced (s : Spliced g data stage n g') (hdata : g₀.node? data = some node)
    (h : Applied g₀ g applied d op out) :
    Applied g₀ g' applied (if d = data then n.out else d) op out where
  op_new := h.op_new
  out_new := h.out_new
  op_eq := h.op_eq.imp fun _ => s.node?_old
  out_kind := s.kind?_old h.out_kind
  inputs := by
    obtain ⟨operand, hin, hoperand⟩ := h.inputs
    obtain ⟨name, hop⟩ := h.op_eq
    refine ⟨operand, ?_, hoperand.spliced s hdata⟩
    have hperm := (s.incoming_old hop).trans (hin.map _)
    rw [List.map_cons, List.map_singleton,
      redirect_of_ne (e := ⟨operand, op, 1⟩) (ne_of_new hoperand.1 hdata)] at hperm
    refine hperm.trans (.of_eq ?_)
    unfold redirect
    split_ifs <;> rfl
  output := by
    obtain ⟨name, hop⟩ := h.op_eq
    have hperm := s.outgoing_old hop (ne_of_new h.op_new hdata)
    rw [h.output] at hperm
    exact List.perm_singleton.1 hperm

/-- A splice behind another tensor of the old graph leaves a chain as it is. -/
theorem Chain.spliced_other (s : Spliced g data stage n g') (hdata : g₀.node? data = some node) :
    ∀ {stages : List Stage} {d : NodeId}, g.contains d → d ≠ data → Chain g₀ g d stages last →
      Chain g₀ g' d stages last ∧ g'.consumers last = g.consumers last
  | [], d, hd, hne, h => by
    obtain ⟨node, hnode⟩ := contains_iff.1 hd
    rw [Chain] at h
    subst h
    exact ⟨rfl, s.consumers_old hnode hne⟩
  | stage :: stages, d, hd, hne, h => by
    obtain ⟨op, out, hcons, happ, hrest⟩ := h
    obtain ⟨node, hnode⟩ := contains_iff.1 hd
    obtain ⟨hrest, hlast⟩ := spliced_other s hdata (contains_of_kind? happ.out_kind)
      (ne_of_new happ.out_new hdata) hrest
    have happ := happ.spliced s hdata
    rw [if_neg hne] at happ
    exact ⟨⟨op, out, (s.consumers_old hnode hne).trans hcons, happ, hrest⟩, hlast⟩

theorem Applied.of_spliced (s : Spliced g data stage n g') (h : g.WellFormed)
    (kept : ∀ i node, g₀.node? i = some node → g.node? i = some node)
    (hdata : g₀.node? data = some node) : Applied g₀ g' stage data n.op n.out := by
  have new : ∀ i ∈ n.ids, g₀.node? i = none := by
    intro i hi
    rcases hi₀ : g₀.node? i with _ | node
    · rfl
    · exact absurd hi (s.not_mem_ids (kept i node hi₀))
  exact {
    op_new := new _ (by simp [Inserted.ids])
    out_new := new _ (by simp [Inserted.ids])
    op_eq := s.op_eq
    out_kind := s.kind?_out
    inputs := ⟨n.operand, s.incoming_op h, new _ (by simp [Inserted.ids]), n.const,
      new _ (by simp [Inserted.ids]), s.const_eq, s.operand_eq, s.incoming_operand h⟩
    output := s.outgoing_op h (kept data node hdata) }

/-- A splice behind the tensor at which a chain begins puts its stage at the head of the chain. -/
theorem Chain.spliced_self (s : Spliced g data stage n g') (h : g.WellFormed)
    (kept : ∀ i node, g₀.node? i = some node → g.node? i = some node)
    (hdata : g₀.node? data = some node) {stages : List Stage}
    (hchain : Chain g₀ g data stages last) :
    ∃ last', Chain g₀ g' data (stage :: stages) last' ∧
      g'.consumers last' = g.consumers last := by
  have hcons := s.consumers_data (kept data node hdata)
  have happ := Applied.of_spliced s h kept hdata
  rcases stages with _ | ⟨next, stages⟩
  · rw [Chain] at hchain
    subst hchain
    exact ⟨n.out, ⟨n.op, n.out, hcons, happ, rfl⟩, s.consumers_out h (kept data node hdata)⟩
  · obtain ⟨op, out, hnext, hnext', hrest⟩ := hchain
    obtain ⟨hrest, hlast⟩ := hrest.spliced_other s hdata (contains_of_kind? hnext'.out_kind)
      (ne_of_new hnext'.out_new hdata)
    have happ' := hnext'.spliced s hdata
    rw [if_pos rfl] at happ'
    exact ⟨last, ⟨n.op, n.out, hcons, happ, op, out,
      (s.consumers_out h (kept data node hdata)).trans hnext, happ', hrest⟩, hlast⟩

/-! ## What a chain computes -/

/-- The values of tensors agree with what operations on a tensor and a constant compute. -/
def Respects {T : Type} (g : Graph) (compute : String → T → List Float → T) (value : NodeId → T) :
    Prop :=
  ∀ op name type data operand node values out, g.node? op = some (.ofOp name type) →
    ⟨data, op, 0⟩ ∈ g.edges → ⟨operand, op, 1⟩ ∈ g.edges → g.node? operand = some node →
    node.value = some values → ⟨op, out, 0⟩ ∈ g.edges → value out = compute type (value data) values

/-- The last tensor of a chain holds what the stages make of the first, one after the other. -/
theorem Chain.value {T : Type} {compute : String → T → List Float → T} {value : NodeId → T}
    (h : Respects g compute value) : ∀ {stages : List Stage} {d : NodeId},
      Chain g₀ g d stages last →
      value last = stages.foldl (fun x stage => compute stage.type x stage.operand) (value d)
  | [], d, hchain => by
    obtain rfl : d = last := hchain
    rfl
  | stage :: stages, d, hchain => by
    obtain ⟨op, out, -, happ, hrest⟩ := hchain
    obtain ⟨name, hop⟩ := happ.op_eq
    obtain ⟨operand, hin, -, const, -, -, ⟨tensorName, htensor⟩, -⟩ := happ.inputs
    have hedge : ∀ e ∈ [(⟨d, op, 0⟩ : Edge), ⟨operand, op, 1⟩], e ∈ g.edges := fun e he =>
      List.mem_of_mem_filter (hin.mem_iff.2 he)
    have hout : ⟨op, out, 0⟩ ∈ g.edges :=
      List.mem_of_mem_filter (happ.output ▸ List.mem_singleton_self _ : _ ∈ g.outgoing op)
    rw [hrest.value h, List.foldl_cons, h op name stage.type d operand _ stage.operand out hop
      (hedge _ (by simp)) (hedge _ (by simp)) htensor rfl hout]

end ModelIR.Graph
