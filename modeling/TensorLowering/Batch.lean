import TensorLowering.Attempt
import TensorLowering.Graph.Basic
import TensorLowering.TensorMap

namespace TensorLowering

/-- Every operation works on each batch element alone, so all its tensors may be split. -/
def Graph.batchAnswer (g : Graph) (id : StageId) : Except LoweringError (TensorMap Batching) := do
  let site ← g.site id
  return (TensorMap.empty.insert site.inputId .split).insert site.outputId .split

namespace Batching

def wholeFor (g : Graph) (id : StageId) : Except LoweringError (List TensorId) := do
  let answer ← g.batchAnswer id
  return (answer.toList.filter fun entry => entry.2 = .whole).map (·.1)

def set (id : TensorId) (batching : Batching) : Attempt Graph Nat := do
  let tensor ← ask (·.tensor id)
  if tensor.batching = batching then
    return 0
  else
    modify fun g => g.modifyTensor id fun tensor => { tensor with batching := batching }
    return 1

/-- A tensor stays splittable only if every stage that touches it agrees. Counts the changes. -/
def determine : Attempt Graph Nat := do
  let wholes ← ask fun g => g.stageIds.mapM (wholeFor g)
  sweep (fun id => set id (if id ∈ wholes.flatten then .whole else .split)) (← get).tensorIds

end Batching

end TensorLowering
