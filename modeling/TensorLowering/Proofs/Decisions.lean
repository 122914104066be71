import TensorLowering.Proofs.Changes
import TensorLowering.Proofs.Schedule

namespace TensorLowering

open Attempt

/-- The tensor without what is decided apart from its order and its requirement. -/
def Tensor.planned (tensor : Tensor) : Tensor :=
  { tensor with strides := none, scale := 1.0, batching := .split }

/-- The tensor as it was given, with every decision taken back. -/
def Tensor.undecided (tensor : Tensor) : Tensor :=
  { tensor.planned with order := .planar tensor.extents, requirement := .empty }

/-- What the passes decide about a tensor. -/
structure Decisions where
  order : AxisOrder
  requirement : Requirement
  strides : Option AxisMap
  scale : Float32
  batching : Batching
  deriving DecidableEq

def Tensor.decisions (tensor : Tensor) : Decisions :=
  ⟨tensor.order, tensor.requirement, tensor.strides, tensor.scale, tensor.batching⟩

/-- A tensor is what was given and what is decided. -/
theorem Tensor.eq_of_undecided_eq {tensor tensor' : Tensor}
    (given : tensor.undecided = tensor'.undecided) (decided : tensor.decisions = tensor'.decisions) :
    tensor = tensor' := by
  cases tensor
  cases tensor'
  simp only [undecided, planned, mk.injEq] at given
  simp only [decisions, Decisions.mk.injEq] at decided
  simp [given, decided]

/-- The operation as it was given; a copy has no mode yet. -/
def Operation.undecided : Operation → Operation
  | .copy demands _ => .copy demands none
  | other => other

def Stage.undecided (stage : Stage) : Stage :=
  { stage with operation := stage.operation.undecided }

namespace Graph

/-- The graph with the orders and requirements that were decided, but nothing else. -/
def planned (g : Graph) : Graph :=
  { g with tensors := g.tensors.map Tensor.planned, stages := g.stages.map Stage.undecided }

/-- The graph as it was built. -/
def undecided (g : Graph) : Graph :=
  { g with tensors := g.tensors.map Tensor.undecided, stages := g.stages.map Stage.undecided }

/-- What the passes decided about the tensors. -/
def decisions (g : Graph) : Array Decisions := g.tensors.map Tensor.decisions

end Graph

@[simp] theorem Operation.undecided_decideMode (operation : Operation) (mode : CopyMode) :
    (operation.decideMode mode).undecided = operation.undecided := by
  cases operation <;> rfl

@[simp] theorem Operation.undecided_undecided (operation : Operation) :
    operation.undecided.undecided = operation.undecided := by
  cases operation <;> rfl

theorem map_modify_eq {α β : Type} {items : Array α} {view : α → β} {place : Nat} {change : α → α}
    (same : ∀ item, view (change item) = view item) :
    (items.modify place change).map view = items.map view := by
  ext i
  · simp
  · simp only [Array.getElem_map, Array.getElem_modify]
    split <;> simp [same]

namespace Graph

variable {g h : Graph}

@[simp] theorem undecided_planned (g : Graph) : g.planned.undecided = g.undecided := by
  simp only [undecided, planned, Array.map_map, mk.injEq, true_and]
  exact ⟨rfl, Array.map_congr_left fun stage _ => by simp [Stage.undecided]⟩

theorem undecided_eq_of_planned_eq (same : g.planned = h.planned) : g.undecided = h.undecided := by
  rw [← undecided_planned g, same, undecided_planned]

theorem tensor_of_undecided_eq (same : h.undecided = g.undecided) {id : TensorId}
    {tensor : Tensor} (atId : h.tensors[id.index]? = some tensor) :
    ∃ tensor', g.tensors[id.index]? = some tensor' ∧ tensor'.undecided = tensor.undecided := by
  have found := congrArg (fun graph : Graph => graph.tensors[id.index]?) same
  simp only [undecided, Array.getElem?_map, atId, Option.map_some] at found
  exact Option.map_eq_some_iff.mp found.symm

theorem tensor_of_planned_eq (same : h.planned = g.planned) {id : TensorId} {tensor : Tensor}
    (atId : h.tensors[id.index]? = some tensor) :
    ∃ tensor', g.tensors[id.index]? = some tensor' ∧ tensor'.planned = tensor.planned := by
  have found := congrArg (fun graph : Graph => graph.tensors[id.index]?) same
  simp only [planned, Array.getElem?_map, atId, Option.map_some] at found
  exact Option.map_eq_some_iff.mp found.symm

theorem stage_of_undecided_eq (same : h.undecided = g.undecided) {id : StageId}
    {stage : Stage} (atId : h.stages[id.index]? = some stage) :
    ∃ stage', g.stages[id.index]? = some stage' ∧ stage'.inputs = stage.inputs ∧
      stage'.outputs = stage.outputs ∧
      stage'.operation.undecided = stage.operation.undecided := by
  have found := congrArg (fun graph : Graph => graph.stages[id.index]?) same
  simp only [undecided, Array.getElem?_map, atId, Option.map_some] at found
  obtain ⟨stage', atId', alike⟩ := Option.map_eq_some_iff.mp found.symm
  simp only [Stage.undecided, Stage.mk.injEq] at alike
  exact ⟨stage', atId', alike.2.2.1, alike.2.2.2.1, alike.2.2.2.2⟩

theorem size_tensors_of_undecided_eq (same : h.undecided = g.undecided) :
    h.tensors.size = g.tensors.size := by
  simpa [undecided] using congrArg (fun graph : Graph => graph.tensors.size) same

theorem size_stages_of_undecided_eq (same : h.undecided = g.undecided) :
    h.stages.size = g.stages.size := by
  simpa [undecided] using congrArg (fun graph : Graph => graph.stages.size) same

/-- The tensor of each handle, if there is one. -/
def lookup (g : Graph) (id : TensorId) : Option Tensor := g.tensors[id.index]?

theorem lookup_eq_iff : h.lookup = g.lookup ↔ h.tensors = g.tensors := by
  refine ⟨fun same => ?_, fun same => by funext id; simp [lookup, same]⟩
  exact Array.ext_getElem? fun i => congrFun same ⟨i⟩

/-- Graphs that were built alike have the same tensors if the same was decided about them. -/
theorem decisions_eq_iff (same : h.undecided = g.undecided) :
    h.decisions = g.decisions ↔ h.tensors = g.tensors := by
  refine ⟨fun decided => ?_, fun tensors => by simp only [decisions, tensors]⟩
  refine Array.ext (size_tensors_of_undecided_eq same) fun i bound bound' => ?_
  have given := congrArg (fun graph : Graph => graph.tensors[i]?) same
  have decided := congrArg (fun decisions : Array Decisions => decisions[i]?) decided
  simp only [undecided, Array.getElem?_map, Array.getElem?_eq_getElem bound,
    Array.getElem?_eq_getElem bound', Option.map_some, Option.some.injEq] at given
  simp only [decisions, Array.getElem?_map, Array.getElem?_eq_getElem bound,
    Array.getElem?_eq_getElem bound', Option.map_some, Option.some.injEq] at decided
  exact Tensor.eq_of_undecided_eq given decided

theorem lookup_modifyTensor_of_ne {id other : TensorId} {change : Tensor → Tensor}
    (elsewhere : other ≠ id) : (g.modifyTensor id change).lookup other = g.lookup other := by
  simp [lookup, tensors_modifyTensor, elsewhere]

/-- What is decided has no part in the wiring. -/
theorem Wired.of_undecided_eq (wired : g.Wired) (same : h.undecided = g.undecided) : h.Wired := by
  have lists (property : List TensorId → List TensorId → Prop) (id : StageId) :
      (∃ stage, g.stages[id.index]? = some stage ∧ property stage.inputs stage.outputs) ↔
        ∃ stage, h.stages[id.index]? = some stage ∧ property stage.inputs stage.outputs := by
    constructor
    · intro found
      obtain ⟨stage, atId, holds⟩ := found
      obtain ⟨stage', atId', inputs, outputs, _⟩ := stage_of_undecided_eq same.symm atId
      exact ⟨stage', atId', by rwa [inputs, outputs]⟩
    · intro found
      obtain ⟨stage, atId, holds⟩ := found
      obtain ⟨stage', atId', inputs, outputs, _⟩ := stage_of_undecided_eq same atId
      exact ⟨stage', atId', by rwa [inputs, outputs]⟩
  constructor
  case arity =>
    intro id stage atId
    obtain ⟨stage', atId', inputs, outputs, _⟩ := stage_of_undecided_eq same atId
    have arity := wired.arity atId'
    rwa [Kind.arity_eq, inputs, outputs, ← Kind.arity_eq stage.kind] at arity
  case known =>
    intro id stage tensor atId member
    obtain ⟨stage', atId', inputs, outputs, _⟩ := stage_of_undecided_eq same atId
    rw [size_tensors_of_undecided_eq same]
    exact wired.known atId' (by rwa [inputs, outputs])
  case readers =>
    intro id tensor reader atId
    obtain ⟨tensor', atId', alike⟩ := tensor_of_undecided_eq same atId
    have consumers : tensor'.consumers = tensor.consumers := (congrArg Tensor.consumers alike :)
    rw [← lists fun inputs _ => id ∈ inputs, ← wired.readers atId', consumers]
  case sorted =>
    intro id tensor atId
    obtain ⟨tensor', atId', alike⟩ := tensor_of_undecided_eq same atId
    have consumers : tensor'.consumers = tensor.consumers := (congrArg Tensor.consumers alike :)
    exact consumers ▸ wired.sorted atId'
  case writer =>
    intro id tensor writer atId
    obtain ⟨tensor', atId', alike⟩ := tensor_of_undecided_eq same atId
    have producer : tensor'.producer = tensor.producer := (congrArg Tensor.producer alike :)
    rw [← lists fun _ outputs => id ∈ outputs, ← wired.writer atId', producer]
  case given =>
    intro id tensor atId role
    obtain ⟨tensor', atId', alike⟩ := tensor_of_undecided_eq same atId
    have producer : tensor'.producer = tensor.producer := (congrArg Tensor.producer alike :)
    have role' : tensor'.role = tensor.role := (congrArg Tensor.role alike :)
    exact producer ▸ wired.given atId' (role'.trans role)
  case acyclic =>
    obtain ⟨depth, grows⟩ := wired.acyclic
    refine ⟨depth, fun {id stage} atId input read output written => ?_⟩
    obtain ⟨stage', atId', inputs, outputs, _⟩ := stage_of_undecided_eq same atId
    exact grows atId' input (by rwa [inputs]) output (by rwa [outputs])

theorem Feeds.of_undecided_eq (same : h.undecided = g.undecided) {writer reader : StageId}
    (feeds : h.Feeds writer reader) : g.Feeds writer reader := by
  obtain ⟨stage, id, tensor, atReader, read, atId, written⟩ := feeds
  obtain ⟨stage', atReader', inputs, _, _⟩ := stage_of_undecided_eq same atReader
  obtain ⟨tensor', atId', alike⟩ := tensor_of_undecided_eq same atId
  have producer : tensor'.producer = tensor.producer := (congrArg Tensor.producer alike :)
  exact ⟨stage', id, tensor', atReader', inputs ▸ read, atId', producer.trans written⟩

theorem Ordered.of_undecided_eq {order : List StageId} (ordered : g.Ordered order)
    (same : h.undecided = g.undecided) : h.Ordered order where
  nodup := ordered.nodup
  mem_iff id := by
    rw [ordered.mem_iff, mem_stageIds, mem_stageIds, size_stages_of_undecided_eq same]
  behind earlier id later split writer feeds :=
    ordered.behind earlier id later split writer (feeds.of_undecided_eq same)

theorem undecided_modifyTensor {id : TensorId} {change : Tensor → Tensor}
    (same : ∀ tensor, (change tensor).undecided = tensor.undecided) :
    (g.modifyTensor id change).undecided = g.undecided := by
  simp only [undecided, modifyTensor, mk.injEq, true_and, and_true]
  exact map_modify_eq same

theorem planned_modifyTensor {plan : Graph} (before : g.planned = plan) {id : TensorId}
    {change : Tensor → Tensor} (same : ∀ tensor, (change tensor).planned = tensor.planned) :
    (g.modifyTensor id change).planned = plan := by
  rw [← before]
  simp only [planned, modifyTensor, mk.injEq, true_and, and_true]
  exact map_modify_eq same

theorem planned_modifyStage {plan : Graph} (before : g.planned = plan) {id : StageId}
    {change : Stage → Stage} (same : ∀ stage, (change stage).undecided = stage.undecided) :
    (g.modifyStage id change).planned = plan := by
  rw [← before]
  simp only [planned, modifyStage, mk.injEq, true_and]
  exact map_modify_eq same

/-! ### Changing every tensor -/

def mapTensors (g : Graph) (change : TensorId → Tensor → Tensor) : Graph :=
  { g with tensors := g.tensors.mapIdx fun index => change ⟨index⟩ }

variable {change : TensorId → Tensor → Tensor}

theorem tensors_mapTensors (g : Graph) (change : TensorId → Tensor → Tensor) (id : TensorId) :
    (g.mapTensors change).tensors[id.index]? = (g.tensors[id.index]?).map (change id) := by
  simp [mapTensors]

theorem hosts_mapTensors_iff {site : Site} :
    (g.mapTensors change).Hosts site ↔
      ∃ before, g.Hosts before ∧ site = before.view change fun stage => stage :=
  hosts_iff_view (tensors_mapTensors g change) (by simp [mapTensors]) (fun _ => rfl) fun _ => rfl

theorem undecided_mapTensors
    (same : ∀ id tensor, (change id tensor).undecided = tensor.undecided) :
    (g.mapTensors change).undecided = g.undecided := by
  simp only [undecided, mapTensors, mk.injEq, true_and, and_true]
  ext i
  · simp
  · simp [same]

theorem mapTensors_eq_self
    (same : ∀ (id : TensorId) tensor, g.tensors[id.index]? = some tensor →
      change id tensor = tensor) : g.mapTensors change = g := by
  obtain ⟨name, tensors, stages⟩ := g
  simp only [mapTensors, mk.injEq, true_and, and_true]
  ext i bound : 1
  · simp
  · have bound' : i < tensors.size := by simpa using bound
    simpa using same ⟨i⟩ tensors[i] (Array.getElem?_eq_getElem bound')

/-- Changing one tensor more. -/
theorem modifyTensor_mapTensors {id : TensorId} {last : Tensor → Tensor}
    {change' : TensorId → Tensor → Tensor} (here : ∀ tensor, last (change id tensor) = change' id tensor)
    (elsewhere : ∀ other tensor, other ≠ id → change other tensor = change' other tensor) :
    (g.mapTensors change).modifyTensor id last = g.mapTensors change' := by
  obtain ⟨index⟩ := id
  simp only [modifyTensor, mapTensors, mk.injEq, true_and, and_true]
  ext i bound : 1
  · simp
  · have bound' : i < g.tensors.size := by simpa using bound
    simp only [Array.getElem_modify, Array.getElem_mapIdx]
    by_cases same : i = index
    · simp [same, here]
    · simp [Ne.symm same, elsewhere, same]

/-! Only two passes change the plan. -/

theorem planned_scale (plan : Graph) (inputScales : TensorMap Float32) :
    Keeps (fun g => g.planned = plan) (Scale.propagate inputScales) := by
  refine Scale.propagate_keeps (fun _ _ _ same => ?_) inputScales
  exact planned_modifyTensor same fun _ => rfl

theorem planned_batch (plan : Graph) : Keeps (fun g => g.planned = plan) Batching.determine :=
  Batching.determine_keeps fun _ _ _ same => planned_modifyTensor same fun _ => rfl

theorem planned_finalize (plan : Graph) : Keeps (fun g => g.planned = plan) Layout.finalize :=
  Layout.finalize_keeps (fun _ _ _ _ same _ _ => planned_modifyTensor same fun _ => rfl)
    fun _ _ _ same => planned_modifyStage same fun _ => by
      simp [Stage.undecided, Operation.undecided_decideMode]

end Graph

end TensorLowering
