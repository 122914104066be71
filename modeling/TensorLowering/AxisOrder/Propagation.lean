import TensorLowering.Attempt
import TensorLowering.Graph.Schedule
import TensorLowering.TensorMap

namespace TensorLowering

/-- Every operation writes its output in the order of its input. -/
def Graph.orderAnswer (g : Graph) (id : StageId) : Except LoweringError (TensorMap AxisOrder) := do
  let site ← g.site id
  return TensorMap.empty.insert site.outputId site.input.order

namespace AxisOrder

/-- Gives a tensor its order and counts a change. The order has to name the axes of the tensor. -/
def adopt (entry : TensorId × AxisOrder) : Attempt Graph Nat := do
  let tensor ← ask (·.tensor entry.1)
  if entry.2.covers tensor.extents then
    if tensor.order = entry.2 then
      return 0
    else
      modify fun g => g.modifyTensor entry.1 fun tensor => { tensor with order := entry.2 }
      return 1
  else
    throw (tensor.fault (.orderDoesNotCover entry.2 tensor.extents))

def propagateThrough (id : StageId) : Attempt Graph Nat := do
  let answer ← ask (·.orderAnswer id)
  sweep adopt answer.toList

/-- Carries the orders of the network inputs through the stages and counts the changes. -/
def propagate : Attempt Graph Nat := do
  let order ← ask (·.schedule)
  sweep propagateThrough order

end AxisOrder

end TensorLowering
