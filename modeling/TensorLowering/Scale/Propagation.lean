import TensorLowering.Attempt
import TensorLowering.Graph.Schedule
import TensorLowering.TensorMap

namespace TensorLowering

/-- What a stage is asked about scales. -/
inductive ScaleStep where
  /-- The stage has to run unscaled. -/
  | check
  /-- The scales of the inputs are asked for, and the stage answers with those it takes. -/
  | scaleInput
  /-- The scales of the inputs are known, and the stage derives its output's. -/
  | propagate
  deriving DecidableEq, Repr

namespace Graph

/-- The scales a stage settles on, given those of its input. A copy passes its scale on. A power
kernel does if it is linear, and otherwise asks for an unscaled input. An input that stays as it is
has no entry when scales are propagated. -/
def Site.scaleAnswer (site : Site) (scales : TensorMap Float32) (step : ScaleStep) :
    Except LoweringError (TensorMap Float32) :=
  let requested := (scales.get? site.inputId).getD 1.0
  match site.stage.operation with
  | .expand _ => throw (site.stage.refuse .propagateScaleFactors)
  | .copy _ _ =>
    let settled := if step = .check then 1.0 else requested
    let inputs := if step = .propagate then .empty else TensorMap.empty.insert site.inputId settled
    return inputs.insert site.outputId settled
  | .power params =>
    let settled :=
      if step = .check then 1.0 else if params.commutesWithScale then requested else 1.0
    let inputs :=
      if step = .propagate && settled == requested then .empty
      else TensorMap.empty.insert site.inputId settled
    return inputs.insert site.outputId settled

def scaleAnswer (g : Graph) (id : StageId) (scales : TensorMap Float32) (step : ScaleStep) :
    Except LoweringError (TensorMap Float32) := do
  (← g.site id).scaleAnswer scales step

def currentScales (g : Graph) : List TensorId → Except LoweringError (TensorMap Float32)
  | [] => .ok .empty
  | id :: rest => do
    let tensor ← g.tensor id
    let others ← g.currentScales rest
    return others.insert id tensor.scale

/-- The scale of the first tensor, one without any. -/
def firstScale (g : Graph) : List TensorId → Except LoweringError Float32
  | [] => .ok 1.0
  | id :: _ => do
    let tensor ← g.tensor id
    return tensor.scale

/-- A stage that reads a configured network input is told its scale, one that reads unscaled
tensors only is checked, and any other has to derive its output. -/
def selectStep (g : Graph) (inputScales current : TensorMap Float32) : ScaleStep :=
  let configured (id : TensorId) : Bool :=
    (g.tensors[id.index]?).any (fun tensor => tensor.role = .input) && inputScales.contains id
  if current.toList.any fun entry => configured entry.1 then .scaleInput
  else if current.toList.all fun entry => entry.2 == 1.0 then .check
  else .propagate

end Graph

namespace Scale

/-- Gives a tensor its scale and counts a change. An equal scale stays, and so does the sign of a
zero. -/
def set (id : TensorId) (scale : Float32) : Attempt Graph Nat := do
  let tensor ← ask (·.tensor id)
  if tensor.scale == scale then
    return 0
  else
    modify fun g => g.modifyTensor id fun tensor => { tensor with scale := scale }
    return 1

/-- Rescales an input at the request of a stage. Only a network input that no other stage reads can
change its scale; for any other tensor a stage in between would be needed. -/
def adopt (stage : StageId) (id : TensorId) (current requested : Float32) : Attempt Graph Nat := do
  let tensor ← ask (·.tensor id)
  if tensor.role = .input ∧ tensor.consumers = [stage] then
    let _ ← set id requested
    return 1
  else
    let reader ← ask (·.stage stage)
    throw (.negotiation (.scaleMismatch tensor.name reader.name current requested))

def settle (stage : StageId) (current : TensorMap Float32) (entry : TensorId × Float32) :
    Attempt Graph Nat :=
  match current.get? entry.1 with
  | some before => if before != entry.2 then adopt stage entry.1 before entry.2 else pure 0
  | none => set entry.1 entry.2

/-- Scales what a stage writes. A special stage shares the memory of its input and is not asked. -/
def propagateThrough (inputScales : TensorMap Float32) (id : StageId) : Attempt Graph Nat := do
  let stage ← ask (·.stage id)
  if stage.category = .special then
    let scale ← ask (·.firstScale stage.inputs)
    sweep (set · scale) stage.outputs
  else
    let current ← ask (·.currentScales stage.inputs)
    let step := (← get).selectStep inputScales current
    let answer ← ask (·.scaleAnswer id current step)
    sweep (settle id current) answer.toList

/-- Starts the network inputs from the given scales, one where none is given, and carries the
scales through the stages. Counts the changes made on the way. -/
def propagate (inputScales : TensorMap Float32) : Attempt Graph Nat := do
  let inputs := (← get).tensorsWith .input
  let started ← sweep (fun id => set id ((inputScales.get? id).getD 1.0)) inputs
  let order ← ask (·.schedule)
  let carried ← sweep (propagateThrough inputScales) order
  return started + carried

end Scale

end TensorLowering
