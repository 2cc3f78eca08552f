import ModelIR.Pass.Splice
import ModelIR.Proofs.FreshNames
import ModelIR.Proofs.GraphEdits
import ModelIR.Proofs.Neighbours

/-!
# What a splice does

A splice behind a tensor adds four nodes and four edges, makes all that read the tensor read the new
one, and leaves all else as it is (`Spliced`). It always succeeds behind an operation that writes a
tensor (`insertAfter_runOn`): the names that it makes up are free, and differ because each is longer
than the one that it is made from. A scale and a mean are spliced in alike (`Adjustment`).
-/

namespace ModelIR

/-- An operation with a constant operand, as it is spliced in. -/
structure Stage where
  type : String
  operand : List Float

/-- What may be done to what an operation gives: it is multiplied by a constant, or a constant is
subtracted from it. -/
inductive Adjustment where
  | scale (values : List Float)
  | mean (values : List Float)

namespace Adjustment

/-- A scale of ones changes nothing, and neither does a mean of zeros. -/
def isNeutral : Adjustment → Bool
  | scale values => values.all (· == 1.0)
  | mean values => values.all (· == 0.0)

/-- The operation of an adjustment, and its constant. -/
def stage : Adjustment → Stage
  | scale values => ⟨OpType.mul, values⟩
  | mean values => ⟨OpType.add, values.map (- ·)⟩

/-- Splices an adjustment in behind an operation. -/
def splice (input : NodeId) : Adjustment → Edit PassError (Option NodeId)
  | scale values => Splice.applyScale input values
  | mean values => Splice.applyMean input values

theorem splice_eq_insertAfter {a : Adjustment} (h : a.isNeutral = false) (input : NodeId) :
    ∃ suffix, a.splice input =
      some <$> Splice.insertAfter input a.stage.type suffix a.stage.operand := by
  cases a with
  | scale values =>
    rw [isNeutral] at h
    exact ⟨"scale", by simp [splice, Splice.applyScale, stage, h]⟩
  | mean values =>
    rw [isNeutral] at h
    exact ⟨"mean", by simp [splice, Splice.applyMean, stage, h]⟩

theorem splice_of_isNeutral {a : Adjustment} (h : a.isNeutral = true) (input : NodeId) :
    a.splice input = pure none := by
  cases a with
  | scale values => exact if_pos h
  | mean values => exact if_pos h

theorem type_ne_parameter (a : Adjustment) : a.stage.type ≠ OpType.parameter := by
  cases a with
  | scale values => exact show OpType.mul ≠ OpType.parameter by decide
  | mean values => exact show OpType.add ≠ OpType.parameter by decide

/-- The stages of adjustments that change something. -/
def stages (adjustments : List Adjustment) : List Stage :=
  (adjustments.filter fun a => !a.isNeutral).map stage

end Adjustment

namespace Graph

variable {g g' : Graph}

/-! ## Constants -/

/-- The operation of a constant. -/
def constOp (name : String) (values : List Float) : Node :=
  { Node.ofOp name OpType.const with value := some values }

/-- The tensor of a constant. -/
def constTensor (name : String) (values : List Float) : Node :=
  { Node.ofData name with value := some values, shape := some [values.length] }

/-- The name for the tensor of a constant is longer than that of its operation. -/
theorem length_lt_dataName (g : Graph) (name : String) :
    name.length < (g.uniqueName (name ++ "/data")).length := by
  have := length_le_uniqueName g (name ++ "/data")
  rw [String.length_append] at this
  have : "/data".length = 5 := rfl
  omega

/-- `g'` is `g` with a constant more: its operation and its tensor, which both hold the values, the
one leading to the other. -/
structure ConstAdded (g : Graph) (name : String) (values : List Float) (op data : NodeId)
    (g' : Graph) : Prop where
  op_fresh : g.node? op = none
  data_fresh : g.node? data = none
  op_ne_data : op ≠ data
  op_eq : g'.node? op = some (constOp name values)
  data_eq : g'.node? data = some (constTensor (g.uniqueName (name ++ "/data")) values)
  kept : ∀ j, j ≠ op → j ≠ data → g'.node? j = g.node? j
  find? : ∀ other, g'.find? other =
    if other = g.uniqueName (name ++ "/data") then some data
    else if other = name then some op else g.find? other
  edges : g'.edges = ⟨op, data, 0⟩ :: g.edges
  vacancies : g'.Vacancies
  wellFormed : g.WellFormed → g'.WellFormed

theorem ConstAdded.isFree {name other : String} {values : List Float} {op data : NodeId}
    (a : ConstAdded g name values op data g') (hlen : other.length < name.length)
    (h : g.isFree other) : g'.isFree other := by
  have hlong := length_lt_dataName g name
  rw [Graph.isFree, a.find?, if_neg, if_neg]
  · exact h
  · rintro rfl
    exact Nat.lt_irrefl _ hlen
  · rintro rfl
    exact Nat.lt_asymm hlen hlong

theorem addConst_runOn (v : g.Vacancies) {name : String} (free : g.isFree name)
    (values : List Float) :
    ∃ op data g', (addConst name values).runOn g = (.ok (op, data), g') ∧
      ConstAdded g name values op data g' := by
  obtain ⟨op, g₁, run₁, a₁⟩ := addNode_runOn v (constOp name values) free
  have free₂ : g₁.isFree (g.uniqueName (name ++ "/data")) := by
    refine a₁.isFree (fun e => ?_) (isFree_uniqueName g _)
    have hlong := length_lt_dataName g name
    rw [e] at hlong
    exact Nat.lt_irrefl _ hlong
  obtain ⟨data, g₂, run₂, a₂⟩ := addNode_runOn a₁.vacancies
    (constTensor (g.uniqueName (name ++ "/data")) values) free₂
  have hop := a₂.of_node? a₁.self
  have hne := a₂.ne_of_node? a₁.self
  refine ⟨op, data, g₂.link op data 0, ?_, {
    op_fresh := a₁.fresh
    data_fresh := by rw [← a₁.other hne.symm, a₂.fresh]
    op_ne_data := hne
    op_eq := hop
    data_eq := a₂.self
    kept := fun j hop hdata => (a₂.other hdata).trans (a₁.other hop)
    find? := fun other => (a₂.find? other).trans (by rw [a₁.find?]; rfl)
    edges := ?_
    vacancies := ⟨a₂.vacancies.lt, a₂.vacancies.empty, a₂.vacancies.nodup⟩
    wellFormed := ?_ }⟩
  · rw [addConst, Edit.runOn_get_bind]
    refine (Edit.runOn_bind_ok run₁ _).trans ?_
    refine (Edit.runOn_bind_ok run₂ _).trans ?_
    refine Edit.runOn_bind_ok (connect_runOn hop a₂.self ?_ 0) _
    simp [constOp, constTensor, Node.ofOp, Node.ofData]
  · change ⟨op, data, 0⟩ :: g₂.edges = _
    rw [a₂.edges, a₁.edges]
  · intro h
    exact (a₂.wellFormed (a₁.wellFormed h free) free₂).link (contains_iff.2 ⟨_, hop⟩)
      (contains_iff.2 ⟨_, a₂.self⟩) 0

/-! ## Splices -/

/-- The nodes that a splice adds: the operation, the constant and its tensor, and what the operation
writes. -/
structure Inserted where
  op : NodeId
  const : NodeId
  operand : NodeId
  out : NodeId

namespace Inserted

/-- All of them. -/
def ids (n : Inserted) : List NodeId :=
  [n.op, n.const, n.operand, n.out]

theorem mem_ids {n : Inserted} {i : NodeId} :
    i ∈ n.ids ↔ i = n.op ∨ i = n.const ∨ i = n.operand ∨ i = n.out := by
  simp [ids]

/-- The edges of a splice behind a tensor. -/
def edges (n : Inserted) (data : NodeId) : List Edge :=
  [⟨n.op, n.out, 0⟩, ⟨n.operand, n.op, 1⟩, ⟨data, n.op, 0⟩, ⟨n.const, n.operand, 0⟩]

/-- The last steps of a splice, in which what was added is joined. -/
def join (n : Inserted) (data : NodeId) : Edit PassError NodeId := do
  Graph.rerouteConsumers data n.out
  Graph.connect data n.op 0
  Graph.connect n.operand n.op 1
  Graph.connect n.op n.out 0
  return n.op

end Inserted

/-- `g'` is `g` with the nodes of a splice more. They are not joined to the rest of the graph yet,
and what the operation writes has the given shape. -/
structure NodesAdded (g : Graph) (stage : Stage) (shape : Option (List Nat)) (n : Inserted)
    (g' : Graph) : Prop where
  fresh : ∀ i ∈ n.ids, g.node? i = none
  nodup : n.ids.Nodup
  kept : ∀ i ∉ n.ids, g'.node? i = g.node? i
  op_eq : ∃ name, g'.node? n.op = some (.ofOp name stage.type)
  const_eq : ∃ name, g'.node? n.const = some (constOp name stage.operand)
  operand_eq : ∃ name, g'.node? n.operand = some (constTensor name stage.operand)
  out_eq : ∃ name, g'.node? n.out = some { Node.ofData name with shape }
  edges : g'.edges = ⟨n.const, n.operand, 0⟩ :: g.edges
  wellFormed : g'.WellFormed

/-- `g'` is `g` with a stage spliced in behind a tensor: the operation reads the tensor and the
constant, and all that read the tensor before reads what the operation writes. -/
structure Spliced (g : Graph) (data : NodeId) (stage : Stage) (n : Inserted) (g' : Graph) :
    Prop where
  fresh : ∀ i ∈ n.ids, g.node? i = none
  nodup : n.ids.Nodup
  kept : ∀ i ∉ n.ids, g'.node? i = g.node? i
  op_eq : ∃ name, g'.node? n.op = some (.ofOp name stage.type)
  const_eq : ∃ name, g'.node? n.const = some (constOp name stage.operand)
  operand_eq : ∃ name, g'.node? n.operand = some (constTensor name stage.operand)
  out_eq : ∃ name, g'.node? n.out =
    some { Node.ofData name with shape := (g.node? data).bind Node.shape }
  edges : g'.edges.Perm (n.edges data ++ g.edges.map (redirect data n.out))
  wellFormed : g'.WellFormed

section Insert

variable {input data : NodeId} {node tensor : Node} {stage : Stage} {n : Inserted}
  {shape : Option (List Nat)}

theorem exists_nodesAdded (h : g.WellFormed) {opName : String} (free : g.isFree opName)
    (stage : Stage) :
    ∃ n g₁ g₂ g₃,
      (addConst (g.uniqueName s!"{opName}/value") stage.operand).runOn g =
        (.ok (n.const, n.operand), g₁) ∧
      (addOp opName stage.type).runOn g₁ = (.ok n.op, g₂) ∧
      (addData (g₂.uniqueName s!"{opName}/out")).runOn g₂ = (.ok n.out, g₃) ∧
      NodesAdded g stage none n g₃ := by
  have hlong : opName.length < (g.uniqueName s!"{opName}/value").length := by
    have := length_le_uniqueName g s!"{opName}/value"
    simp only [toString, String.length_append] at this ⊢
    have : "/value".length = 6 := rfl
    omega
  obtain ⟨const, operand, g₁, run₁, a₁⟩ := addConst_runOn h.vacancies
    (isFree_uniqueName g s!"{opName}/value") stage.operand
  have free₂ : g₁.isFree opName := a₁.isFree hlong free
  obtain ⟨op, g₂, run₂, a₂⟩ := addNode_runOn a₁.vacancies (.ofOp opName stage.type) free₂
  have free₃ := isFree_uniqueName g₂ s!"{opName}/out"
  obtain ⟨out, g₃, run₃, a₃⟩ := addNode_runOn a₂.vacancies
    (.ofData (g₂.uniqueName s!"{opName}/out")) free₃
  have hoperand := a₁.data_eq
  have const_ne_op : const ≠ op := a₂.ne_of_node? a₁.op_eq
  have operand_ne_op : operand ≠ op := a₂.ne_of_node? hoperand
  have hconst₃ := a₃.of_node? (a₂.of_node? a₁.op_eq)
  have hoperand₃ := a₃.of_node? (a₂.of_node? hoperand)
  have const_ne_out : const ≠ out := a₃.ne_of_node? (a₂.of_node? a₁.op_eq)
  have operand_ne_out : operand ≠ out := a₃.ne_of_node? (a₂.of_node? hoperand)
  have op_ne_out : op ≠ out := a₃.ne_of_node? a₂.self
  have op_fresh : g.node? op = none := by
    rw [← a₁.kept op const_ne_op.symm operand_ne_op.symm, a₂.fresh]
  have out_fresh : g.node? out = none := by
    rw [← a₁.kept out const_ne_out.symm operand_ne_out.symm, ← a₂.other op_ne_out.symm, a₃.fresh]
  refine ⟨⟨op, const, operand, out⟩, g₁, g₂, g₃, run₁, run₂, run₃, ?_, ?_, ?_,
    ⟨_, a₃.of_node? a₂.self⟩, ⟨_, hconst₃⟩, ⟨_, hoperand₃⟩, ⟨_, a₃.self⟩, ?_,
    a₃.wellFormed (a₂.wellFormed (a₁.wellFormed h) free₂) free₃⟩
  · intro i hi
    rcases Inserted.mem_ids.1 hi with rfl | rfl | rfl | rfl
    exacts [op_fresh, a₁.op_fresh, a₁.data_fresh, out_fresh]
  · simp only [Inserted.ids, List.nodup_cons, List.mem_cons, List.not_mem_nil]
    simp [const_ne_op.symm, operand_ne_op.symm, op_ne_out, a₁.op_ne_data, const_ne_out,
      operand_ne_out]
  · intro j hj
    rw [Inserted.mem_ids, not_or, not_or, not_or] at hj
    rw [a₃.other hj.2.2.2, a₂.other hj.1, a₁.kept j hj.2.1 hj.2.2.1]
  · rw [a₃.edges, a₂.edges, a₁.edges]

/-- Gives a tensor the shape of another one. -/
def shaped (g : Graph) (data out : NodeId) : Graph :=
  g.modifyNode out fun fresh => { fresh with shape := (g.node? data).bind Node.shape }

/-- Joins the nodes of a splice, and makes all that read the tensor read what the operation writes.
-/
def joined (g : Graph) (data : NodeId) (n : Inserted) : Graph :=
  (((g.moveOutgoing data n.out).link data n.op 0).link n.operand n.op 1).link n.op n.out 0

namespace NodesAdded

variable (a : NodesAdded g stage shape n g')
include a

theorem not_mem_ids {i : NodeId} (hi : g.node? i = some node) : i ∉ n.ids := by
  intro hmem
  simp [a.fresh i hmem] at hi

theorem of_node? {i : NodeId} (hi : g.node? i = some node) : g'.node? i = some node := by
  rw [a.kept i (a.not_mem_ids hi), hi]

theorem shaped (htensor : g.node? data = some tensor) :
    NodesAdded g stage ((g.node? data).bind Node.shape) n (g'.shaped data n.out) := by
  have hother : ∀ i, i ≠ n.out → (g'.shaped data n.out).node? i = g'.node? i := by
    intro i hi
    rw [Graph.shaped, modifyNode_node?, if_neg hi]
  have hmem : n.out ∈ n.ids := Inserted.mem_ids.2 (by simp)
  have hnodup := a.nodup
  simp only [Inserted.ids, List.nodup_cons, List.mem_cons, List.not_mem_nil, not_or] at hnodup
  obtain ⟨⟨-, -, op_ne_out, -⟩, ⟨-, const_ne_out, -⟩, ⟨operand_ne_out, -⟩, -⟩ := hnodup
  refine ⟨a.fresh, a.nodup, ?_, ?_, ?_, ?_, ?_, a.edges, a.wellFormed.modifyNode fun _ => rfl⟩
  · intro i hi
    rw [hother i fun h => hi (h ▸ hmem), a.kept i hi]
  · rw [hother _ op_ne_out]
    exact a.op_eq
  · rw [hother _ const_ne_out]
    exact a.const_eq
  · rw [hother _ operand_ne_out]
    exact a.operand_eq
  · obtain ⟨name, hout⟩ := a.out_eq
    refine ⟨name, ?_⟩
    rw [Graph.shaped, modifyNode_node?, if_pos rfl, hout, a.of_node? htensor, htensor]
    rfl

theorem contains_of_mem_ids {i : NodeId} (hi : i ∈ n.ids) : g'.contains i = true := by
  rw [contains_iff]
  rcases Inserted.mem_ids.1 hi with rfl | rfl | rfl | rfl
  · exact ⟨_, a.op_eq.choose_spec⟩
  · exact ⟨_, a.const_eq.choose_spec⟩
  · exact ⟨_, a.operand_eq.choose_spec⟩
  · exact ⟨_, a.out_eq.choose_spec⟩

end NodesAdded

/-- The constant is no consumer that is moved. -/
theorem NodesAdded.edges_moveOutgoing (a : NodesAdded g stage shape n g')
    (hdata : g.node? data = some tensor) : (g'.moveOutgoing data n.out).edges.Perm
      (⟨n.const, n.operand, 0⟩ :: g.edges.map (redirect data n.out)) := by
  have hconst : redirect data n.out ⟨n.const, n.operand, 0⟩ = ⟨n.const, n.operand, 0⟩ := by
    refine redirect_of_ne ?_
    rintro rfl
    exact a.not_mem_ids hdata (Inserted.mem_ids.2 (by simp))
  have hmoved := Graph.edges_moveOutgoing g' data n.out
  rwa [a.edges, List.map_cons, hconst] at hmoved

/-- Moving and joining edges leaves the nodes as they are. -/
theorem NodesAdded.joined (a : NodesAdded g stage ((g.node? data).bind Node.shape) n g')
    (htensor : g.node? data = some tensor) : Spliced g data stage n (g'.joined data n) := by
  have hop : g'.contains n.op = true := a.contains_of_mem_ids (Inserted.mem_ids.2 (by simp))
  have hoperand : g'.contains n.operand = true :=
    a.contains_of_mem_ids (Inserted.mem_ids.2 (by simp))
  have hout : g'.contains n.out = true := a.contains_of_mem_ids (Inserted.mem_ids.2 (by simp))
  have hdata : g'.contains data = true := contains_iff.2 ⟨_, a.of_node? htensor⟩
  refine ⟨a.fresh, a.nodup, a.kept, a.op_eq, a.const_eq, a.operand_eq, a.out_eq, ?_, ?_⟩
  · exact (((a.edges_moveOutgoing htensor).cons _).cons _).cons _
  · exact (((a.wellFormed.moveOutgoing hout).link hdata hop 0).link hoperand hop 1).link hop hout 0

/-- Whatever the first output of a node is, the nodes of a splice are added. What is left to do is
to join them. -/
theorem exists_insertAfter_runOn_eq (h : g.WellFormed) (hnode : g.node? input = some node)
    (hdata : (g.outNodes input).head? = some data) (hfound : g.node? data = some tensor)
    (type suffix : String) (values : List Float) :
    ∃ n g', NodesAdded g ⟨type, values⟩ ((g.node? data).bind Node.shape) n g' ∧
      (Splice.insertAfter input type suffix values).runOn g = (n.join data).runOn g' := by
  obtain ⟨n, g₁, g₂, g₃, run₁, run₂, run₃, a⟩ :=
    exists_nodesAdded h (isFree_uniqueName g s!"{node.name}/{suffix}") ⟨type, values⟩
  refine ⟨n, g₃.shaped data n.out, a.shaped hfound, ?_⟩
  simp only [Splice.insertAfter, Edit.runOn_pass_get_bind, hnode, hdata]
  refine (Edit.runOn_bind_ok (Edit.runOn_lift_ok run₁) _).trans ?_
  refine (Edit.runOn_bind_ok (Edit.runOn_lift_ok run₂) _).trans ?_
  refine (Edit.runOn_pass_get_bind _).trans ?_
  refine (Edit.runOn_bind_ok (Edit.runOn_lift_ok run₃) _).trans ?_
  exact Edit.runOn_bind_ok (Edit.runOn_pass_modify _) _

theorem insertAfter_runOn (h : g.WellFormed) (hnode : g.node? input = some node)
    (hdata : (g.outNodes input).head? = some data) (htensor : g.node? data = some tensor)
    (hk : tensor.kind = .data) (type suffix : String) (values : List Float) :
    ∃ n g', (Splice.insertAfter input type suffix values).runOn g = (.ok n.op, g') ∧
      Spliced g data ⟨type, values⟩ n g' := by
  obtain ⟨n, g₁, a, run⟩ := exists_insertAfter_runOn_eq h hnode hdata htensor type suffix values
  have hdata₁ := a.of_node? htensor
  obtain ⟨opName, hop⟩ := a.op_eq
  obtain ⟨operandName, hoperand⟩ := a.operand_eq
  obtain ⟨outName, hout⟩ := a.out_eq
  refine ⟨n, g₁.joined data n, run.trans ?_, a.joined htensor⟩
  refine (Edit.runOn_bind_ok (Edit.runOn_lift_ok (rerouteConsumers_runOn (g := g₁)
    (contains_iff.2 ⟨_, hdata₁⟩) (contains_iff.2 ⟨_, hout⟩))) _).trans ?_
  refine (Edit.runOn_bind_ok (Edit.runOn_lift_ok
    (connect_runOn (g := g₁.moveOutgoing data n.out) hdata₁ hop ?_ 0)) _).trans ?_
  · simp [hk, Node.ofOp]
  refine (Edit.runOn_bind_ok (Edit.runOn_lift_ok (connect_runOn
    (g := (g₁.moveOutgoing data n.out).link data n.op 0) hoperand hop ?_ 1)) _).trans ?_
  · simp [constTensor, Node.ofData, Node.ofOp]
  refine Edit.runOn_bind_ok (Edit.runOn_lift_ok (connect_runOn
    (g := ((g₁.moveOutgoing data n.out).link data n.op 0).link n.operand n.op 1) hop hout ?_ 0)) _
  simp [Node.ofData, Node.ofOp]

end Insert

end Graph

end ModelIR
