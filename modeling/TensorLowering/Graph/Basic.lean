import TensorLowering.Error

namespace TensorLowering

/-- The frontend layer that a stage was made from. -/
structure Origin where
  name : String
  layerType : String
  deriving DecidableEq, Repr

structure Stage where
  name : String
  origin : Option Origin
  inputs : List TensorId
  outputs : List TensorId
  operation : Operation
  deriving DecidableEq

namespace Stage

def kind (stage : Stage) : Kind := stage.operation.kind

def category (stage : Stage) : Category := stage.kind.category

/-- Whether the stage is wired to as many tensors as its kind asks for. -/
def checkArity (stage : Stage) : Except LoweringError Unit :=
  if stage.inputs.length = stage.kind.arity.inputs ∧
      stage.outputs.length = stage.kind.arity.outputs then
    .ok ()
  else
    throw (.contract (.wrongArity stage.name stage.kind stage.inputs.length stage.outputs.length))

def fault (stage : Stage) (fault : StageFault) : LoweringError :=
  .contract (.stageFault stage.name stage.kind fault)

def refuse (stage : Stage) (call : RefusedCall) : LoweringError :=
  .contract (.refused stage.name stage.kind call)

end Stage

def Tensor.fault (tensor : Tensor) (fault : TensorFault) : LoweringError :=
  .contract (.tensorFault tensor.name fault)

/-- Tensors and stages, each named by its place. A stage lists the tensors it reads and writes; a
tensor lists who writes and who reads it. -/
structure Graph where
  name : String
  tensors : Array Tensor
  stages : Array Stage
  deriving DecidableEq

namespace Graph

def empty (name : String) : Graph := ⟨name, #[], #[]⟩

def tensor (g : Graph) (id : TensorId) : Except LoweringError Tensor :=
  match g.tensors[id.index]? with
  | some tensor => .ok tensor
  | none => throw (.contract (.unknownTensor id))

def stage (g : Graph) (id : StageId) : Except LoweringError Stage :=
  match g.stages[id.index]? with
  | some stage => .ok stage
  | none => throw (.contract (.unknownStage id))

theorem tensor_eq_ok_iff {g : Graph} {id : TensorId} {tensor : Tensor} :
    g.tensor id = .ok tensor ↔ g.tensors[id.index]? = some tensor := by
  unfold Graph.tensor
  cases g.tensors[id.index]? <;> simp [throw, throwThe, MonadExceptOf.throw]

theorem stage_eq_ok_iff {g : Graph} {id : StageId} {stage : Stage} :
    g.stage id = .ok stage ↔ g.stages[id.index]? = some stage := by
  unfold Graph.stage
  cases g.stages[id.index]? <;> simp [throw, throwThe, MonadExceptOf.throw]

def tensorIds (g : Graph) : List TensorId := (List.range g.tensors.size).map TensorId.mk

def stageIds (g : Graph) : List StageId := (List.range g.stages.size).map StageId.mk

theorem mem_tensorIds {g : Graph} {id : TensorId} :
    id ∈ g.tensorIds ↔ id.index < g.tensors.size := by
  obtain ⟨index⟩ := id
  simp [tensorIds]

theorem mem_stageIds {g : Graph} {id : StageId} :
    id ∈ g.stageIds ↔ id.index < g.stages.size := by
  obtain ⟨index⟩ := id
  simp [stageIds]

def tensorsWith (g : Graph) (role : Role) : List TensorId :=
  g.tensorIds.filter fun id => (g.tensors[id.index]?).any fun tensor => tensor.role = role

/-- Changes one tensor; an unknown handle changes nothing. -/
def modifyTensor (g : Graph) (id : TensorId) (change : Tensor → Tensor) : Graph :=
  { g with tensors := g.tensors.modify id.index change }

/-- Changes one stage; an unknown handle changes nothing. -/
def modifyStage (g : Graph) (id : StageId) (change : Stage → Stage) : Graph :=
  { g with stages := g.stages.modify id.index change }

theorem tensors_modifyTensor (g : Graph) (id other : TensorId) (change : Tensor → Tensor) :
    (g.modifyTensor id change).tensors[other.index]? =
      if other = id then (g.tensors[other.index]?).map change else g.tensors[other.index]? := by
  obtain ⟨index⟩ := id
  obtain ⟨place⟩ := other
  simp only [modifyTensor, Array.getElem?_modify, TensorId.mk.injEq]
  by_cases same : place = index
  · simp [same]
  · simp [same, Ne.symm same]

/-- Appends a tensor. Its handle is the number of tensors before it. -/
def addTensor (g : Graph) (name : String) (type : ElementType) (extents : AxisMap)
    (role : Role) : TensorId × Graph :=
  (⟨g.tensors.size⟩, { g with tensors := g.tensors.push (.fresh name type extents role) })

/-- Marks a tensor as a result of the network. A network input cannot be one. -/
def markOutput (g : Graph) (id : TensorId) : Except LoweringError Graph := do
  let tensor ← g.tensor id
  if tensor.role = .input then
    throw (tensor.fault .inputAsResult)
  else
    return g.modifyTensor id fun tensor => { tensor with role := .output }

/-- Chooses the memory order of a network input. Every other order follows from these. -/
def setInputOrder (g : Graph) (id : TensorId) (order : AxisOrder) : Except LoweringError Graph := do
  let tensor ← g.tensor id
  if tensor.role ≠ .input then
    throw (tensor.fault .orderOfNonInput)
  else if order.covers tensor.extents then
    return g.modifyTensor id fun tensor => { tensor with order := order }
  else
    throw (tensor.fault (.orderDoesNotCover order tensor.extents))

/-- A stage together with the tensor it reads and the tensor it writes. -/
structure Site where
  id : StageId
  stage : Stage
  inputId : TensorId
  input : Tensor
  outputId : TensorId
  output : Tensor

/-- Looks a stage up for a question about it: the stage has to exist and to have the one input and
the one output that every kind asks for. -/
def site (g : Graph) (id : StageId) : Except LoweringError Site := do
  let stage ← g.stage id
  stage.checkArity
  match stage.inputs, stage.outputs with
  | inputId :: _, outputId :: _ =>
    return ⟨id, stage, inputId, ← g.tensor inputId, outputId, ← g.tensor outputId⟩
  | inputs, outputs =>
    throw (.contract (.wrongArity stage.name stage.kind inputs.length outputs.length))

/-- Reads back one part of a stage, if the stage is of the kind that has it. -/
def part {α : Type} (g : Graph) (id : StageId) (expected : StagePart)
    (read? : Operation → Option α) : Except LoweringError α := do
  let stage ← g.stage id
  match read? stage.operation with
  | some found => return found
  | none => throw (.contract (.otherPart stage.name expected))

def copyParams (g : Graph) (id : StageId) : Except LoweringError CopyDemands :=
  g.part id .copyParams fun
    | .copy demands _ => some demands
    | _ => none

def copyStage (g : Graph) (id : StageId) : Except LoweringError (CopyDemands × Option CopyMode) :=
  g.part id .copyStage fun
    | .copy demands mode => some (demands, mode)
    | _ => none

def powerParams (g : Graph) (id : StageId) : Except LoweringError PowerParams :=
  g.part id .powerParams fun
    | .power params => some params
    | _ => none

def powerStage (g : Graph) (id : StageId) : Except LoweringError PowerParams :=
  g.part id .powerStage fun
    | .power params => some params
    | _ => none

def expandParams (g : Graph) (id : StageId) : Except LoweringError AxisMap :=
  g.part id .expandParams fun
    | .expand offset => some offset
    | _ => none

def expandStage (g : Graph) (id : StageId) : Except LoweringError AxisMap :=
  g.part id .expandStage fun
    | .expand offset => some offset
    | _ => none

end Graph

end TensorLowering
