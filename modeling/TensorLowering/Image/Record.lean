import TensorLowering.AxisOrder.Code
import TensorLowering.Graph.Schedule
import TensorLowering.Image.Writer

namespace TensorLowering

namespace Image

def extents (tensor : Tensor) : List Axis → Attempt Writer Unit
  | [] => pure ()
  | axis :: outer => do
    count "extent" (tensor.extent axis)
    extents tensor outer

def strides (tensor : Tensor) (resolved : AxisMap) : List Axis → Attempt Writer Unit
  | [] => pure ()
  | axis :: outer => do
    match resolved.get? axis with
    | none => throw (.image (.unresolvedStrides tensor.name))
    | some stride => count "stride" stride
    strides tensor resolved outer

/-- Describes a tensor: its handle, element type, order and number of axes, then the extents and
the byte strides, both innermost first. -/
def descriptor (id : TensorId) (tensor : Tensor) : Attempt Writer Unit := do
  match tensor.strides with
  | none => throw (.image (.unresolvedStrides tensor.name))
  | some resolved =>
    count "data index" id.index
    word tensor.type.code
    word tensor.order.code
    count "axis count" tensor.order.rank
    extents tensor tensor.order.axes
    strides tensor resolved tensor.order.axes

end Image

namespace Graph

open Image

/-- Writes the parameters of a stage. A power kernel on a scaled input has to add a shift that is
scaled alike; the scale of its output tells by how much. -/
def writeParams (g : Graph) (id : StageId) : Attempt Writer Unit := do
  let site ← ask fun _ => g.site id
  match site.stage.operation with
  | .expand _ => throw (site.stage.refuse .serializeParams)
  | .copy _ none => throw (site.stage.fault .writtenBeforeFinalization)
  | .copy _ (some mode) =>
    word mode.code
    count "copy byte count" (site.input.elements * site.input.type.size)
  | .power params =>
    float params.scale
    float (params.shift * site.output.scale)
    float params.power

def writeTensors (g : Graph) (id : StageId) : Attempt Writer Unit := do
  let site ← ask fun _ => g.site id
  match site.stage.operation with
  | .expand _ => throw (site.stage.refuse .serializeData)
  | _ =>
    descriptor site.inputId site.input
    descriptor site.outputId site.output

/-- Writes the record of a stage and counts it. Special stages have none. -/
def writeStage (g : Graph) (id : StageId) : Attempt Writer Nat := do
  let stage ← ask fun _ => g.stage id
  if stage.category = .special then
    return 0
  else
    record do
      word stage.kind.code
      word stage.category.code
      count "input count" stage.inputs.length
      count "output count" stage.outputs.length
      g.writeParams id
      g.writeTensors id
    return 1

/-- The image of the graph, one record for each stage that is executed, in schedule order, together
with the number of records. -/
def image (g : Graph) : Except LoweringError (Array UInt8 × Nat) := do
  let order ← g.schedule
  match sweep g.writeStage order Writer.withHeader with
  | .error error _ => throw error
  | .ok records writer => return (← writer.finish records, records)

end Graph

end TensorLowering
