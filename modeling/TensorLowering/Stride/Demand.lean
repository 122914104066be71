import TensorLowering.Graph.Basic
import TensorLowering.TensorMap

namespace TensorLowering

/-- The innermost output position at which the extents of input and output differ. Up to it the
input is a view of the output. -/
def innermostWidened? (input output : Tensor) : Option Nat :=
  let differing := output.extents.toList.filter fun entry =>
    input.extents.get? entry.1 ≠ some entry.2
  (differing.filterMap fun entry => output.order.position? entry.1).min?

structure Gathered where
  output : Requirement
  input : Requirement
  /-- The positions that a reader filled, with the reader's name. -/
  filledBy : List (Nat × String)

/-- Adds what one reader asks of one position. What the reader fills is asked of the input too. -/
def Gathered.take (outputName reader : String) (demands : Requirement) (gathered : Gathered)
    (place : Axis × Nat) : Except LoweringError Gathered :=
  let (axis, position) := place
  match gathered.output.tighten position (demands.get position) with
  | .ok (output, true) =>
    return { output := output
             input := gathered.input.set position (demands.get position)
             filledBy := (position, reader) :: gathered.filledBy }
  | .ok (_, false) => return gathered
  | .error conflict =>
    throw (.negotiation (.conflict outputName axis conflict.existing conflict.demanded
      (gathered.filledBy.lookup position) reader))

namespace Graph

def Site.gatherFrom (site : Site) (shared : List (Axis × Nat))
    (query : StageId → Except LoweringError (TensorMap Requirement)) (g : Graph)
    (gathered : Gathered) (reader : StageId) : Except LoweringError Gathered := do
  let answer ← query reader
  match answer.get? site.outputId with
  | none => return gathered
  | some demands =>
    let stage ← g.stage reader
    shared.foldlM (Gathered.take site.output.name stage.name demands) gathered

/-- An expand stage hands on to its input what is asked of its output, as far as the input is a
view of it: the output's requirement and the demands of all its readers. -/
def Site.expandDemands (site : Site) (query : StageId → Except LoweringError (TensorMap Requirement))
    (g : Graph) : Except LoweringError (TensorMap Requirement) := do
  match innermostWidened? site.input site.output with
  | none =>
    throw (site.stage.fault
      (.notWider site.output.name site.output.extents site.input.name site.input.extents))
  | some widened =>
    let shared := (site.output.order.axes.take (widened + 1)).zipIdx
    let start : Gathered :=
      { output := site.output.requirement
        input := site.output.requirement.clearAbove widened
        filledBy := [] }
    let gathered ← site.output.consumers.foldlM (site.gatherFrom shared query g) start
    return (TensorMap.empty.insert site.inputId gathered.input).insert site.outputId gathered.output

/-- What a stage asks of the strides of its tensors, where an expand stage may ask its readers in
turn, through at most `depth` stages. -/
def stridesWithin (g : Graph) (depth : Nat) (id : StageId) :
    Except LoweringError (TensorMap Requirement) :=
  match depth with
  | 0 => throw (.internal (.queryTooDeep id))
  | depth + 1 => do
    let site ← g.site id
    match site.stage.operation with
    | .copy demands _ =>
      return (TensorMap.empty.insert site.inputId demands.input).insert site.outputId demands.output
    | .power _ =>
      -- vector kernels walk the innermost position densely
      let denseInner := Requirement.empty.set 0 .compact
      return (TensorMap.empty.insert site.inputId denseInner).insert site.outputId denseInner
    | .expand _ => site.expandDemands (g.stridesWithin depth) g

/-- What a stage asks of the strides of its tensors. Data does not flow in circles, so a chain of
questions passes each stage once. -/
def strideDemands (g : Graph) (id : StageId) : Except LoweringError (TensorMap Requirement) :=
  g.stridesWithin (g.stages.size + 1) id

end Graph

end TensorLowering
