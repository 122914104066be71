import TensorLowering.Graph.Schedule
import TensorLowering.Stride.Demand

namespace TensorLowering.Graph

namespace Site

def ensure (site : Site) (holds : Bool) (fault : StageFault) : Except LoweringError Unit :=
  if holds then .ok () else throw (site.stage.fault fault)

theorem ensure_eq_ok_iff {site : Site} {holds : Bool} {fault : StageFault} {result : Unit} :
    site.ensure holds fault = .ok result ↔ holds = true := by
  cases holds <;> simp [ensure, throw, throwThe, MonadExceptOf.throw]

def checkSameExtents (site : Site) : Except LoweringError Unit :=
  site.ensure (site.input.extents = site.output.extents)
    (.extentsDiffer site.input.name site.input.extents site.output.name site.output.extents)

/-- The input, moved by the offset, has to end inside the output along an axis. -/
def checkPlacement (site : Site) (offset : AxisMap) (entry : Axis × Nat) :
    Except LoweringError Unit := do
  let (axis, outputExtent) := entry
  match site.input.extents.get? axis with
  | none => throw (site.stage.fault (.inputLacksAxis axis))
  | some inputExtent =>
    let start := (offset.get? axis).getD 0
    site.ensure (start + inputExtent ≤ outputExtent)
      (.exceedsOutput axis start inputExtent outputExtent)

/-- The input has to lie inside the output and to be smaller along some axis. -/
def checkExpand (site : Site) (offset : AxisMap) : Except LoweringError Unit := do
  site.ensure (site.input.extents.size = site.output.extents.size) .axesDiffer
  site.output.extents.toList.forM (site.checkPlacement offset)
  offset.axes.forM fun axis => site.ensure (site.output.extents.has axis) (.foreignOffset axis)
  site.ensure (innermostWidened? site.input site.output).isSome .nothingWidened

end Site

/-- What each operation insists on once all layout decisions are made. -/
def checkStageFinal (g : Graph) (id : StageId) : Except LoweringError Unit := do
  let site ← g.site id
  match site.stage.operation with
  | .expand offset => site.checkExpand offset
  | .copy _ mode =>
    site.checkSameExtents
    site.ensure mode.isSome .modeNotFinalized
  | .power params =>
    site.checkSameExtents
    site.ensure params.isFinite (.nonFinite params)

def checkTensorLayout (g : Graph) (id : TensorId) : Except LoweringError Unit := do
  let tensor ← g.tensor id
  match tensor.layoutViolation? with
  | none => return ()
  | some violation => throw (tensor.fault (.layout violation))

/-- The last check before the image is written: every stage accepts what was decided around it, and
the strides of every tensor meet its requirement. -/
def checkFinal (g : Graph) : Except LoweringError Unit := do
  (← g.schedule).forM g.checkStageFinal
  g.tensorIds.forM g.checkTensorLayout

end TensorLowering.Graph
