import TensorLowering.Graph.Schedule

namespace TensorLowering.Graph

/-- The stage lists the tensor as an input, so the tensor has to list the stage as a reader. -/
def checkInput (g : Graph) (id : StageId) (stage : Stage) (input : TensorId) :
    Except LoweringError Unit := do
  let tensor ← g.tensor input
  if id ∈ tensor.consumers then return ()
  else throw (.contract (.inconsistentEdge stage.name tensor.name))

/-- The stage lists the tensor as an output, so the tensor has to name the stage as its writer. -/
def checkOutput (g : Graph) (id : StageId) (stage : Stage) (output : TensorId) :
    Except LoweringError Unit := do
  let tensor ← g.tensor output
  if tensor.producer = some id then return ()
  else throw (.contract (.inconsistentEdge stage.name tensor.name))

def checkStage (g : Graph) (id : StageId) : Except LoweringError Unit := do
  let stage ← g.stage id
  stage.checkArity
  stage.inputs.forM (g.checkInput id stage)
  stage.outputs.forM (g.checkOutput id stage)

/-- The tensor names the stage as its writer, so the stage has to list the tensor. -/
def checkProducer (g : Graph) (id : TensorId) (tensor : Tensor) (producer : StageId) :
    Except LoweringError Unit := do
  let stage ← g.stage producer
  if id ∈ stage.outputs then return ()
  else throw (.contract (.inconsistentEdge stage.name tensor.name))

/-- The tensor lists the stage as a reader, so the stage has to list the tensor. -/
def checkConsumer (g : Graph) (id : TensorId) (tensor : Tensor) (consumer : StageId) :
    Except LoweringError Unit := do
  let stage ← g.stage consumer
  if id ∈ stage.inputs then return ()
  else throw (.contract (.inconsistentEdge stage.name tensor.name))

/-- A network input has to be read and may not be written; any other tensor has to be written. -/
def checkRole (g : Graph) (tensor : Tensor) : Except LoweringError Unit := do
  match tensor.role, tensor.producer with
  | .input, some producer =>
    throw (.contract (.producedInput tensor.name (← g.stage producer).name))
  | .input, none =>
    if tensor.consumers = [] then throw (.contract (.orphan tensor.name)) else return ()
  | _, none =>
    if tensor.consumers = [] then throw (.contract (.orphan tensor.name))
    else throw (.contract (.unproduced tensor.name))
  | _, some _ => return ()

def checkTensor (g : Graph) (id : TensorId) : Except LoweringError Unit := do
  let tensor ← g.tensor id
  tensor.producer.toList.forM (g.checkProducer id tensor)
  tensor.consumers.forM (g.checkConsumer id tensor)
  g.checkRole tensor

/-- Checks everything that the passes rely on: the wiring agrees from both sides, every tensor that
is not given to the network is written, nothing is left over, and data does not flow in circles. -/
def validate (g : Graph) : Except LoweringError Unit := do
  g.stageIds.forM g.checkStage
  g.tensorIds.forM g.checkTensor
  let _ ← g.schedule

end TensorLowering.Graph
