import TensorLowering.Attempt
import TensorLowering.Graph.Schedule

namespace TensorLowering

/-- A copy moves its bytes in one burst if all its tensors are dense. -/
def CopyMode.choose (tensors : List Tensor) : CopyMode :=
  if tensors.all Tensor.isDense then .linear else .strided

/-- Enters the mode into a copy; nothing else has one. -/
def Operation.decideMode (operation : Operation) (mode : CopyMode) : Operation :=
  match operation with
  | .copy demands _ => .copy demands (some mode)
  | other => other

namespace Layout

def resolve (id : TensorId) : Attempt Graph Nat := do
  let tensor ← ask (·.tensor id)
  match tensor.resolveStrides with
  | .error stride => throw (.negotiation (.infeasibleStride tensor.name stride))
  | .ok strides =>
    if tensor.strides = some strides then
      return 0
    else
      modify fun g => g.modifyTensor id fun tensor => { tensor with strides := some strides }
      return 1

/-- Lets a stage record what follows from the strides around it. Only a copy has something to
record. -/
def finalizeStage (id : StageId) : Attempt Graph Nat := do
  let stage ← ask (·.stage id)
  ask fun _ => stage.checkArity
  let tensors ← ask fun g => (stage.inputs ++ stage.outputs).mapM g.tensor
  modify fun g => g.modifyStage id fun stage =>
    { stage with operation := stage.operation.decideMode (.choose tensors) }
  return 0

/-- Resolves the strides of every tensor, then lets the stages record their decisions. Counts the
tensors whose strides changed. -/
def finalize : Attempt Graph Nat := do
  let resolved ← sweep resolve (← get).tensorIds
  let order ← ask (·.schedule)
  let recorded ← sweep finalizeStage order
  return resolved + recorded

end Layout

end TensorLowering
