import TensorLowering.AxisOrder.Text
import TensorLowering.Decimal.Style
import TensorLowering.Layout.Strides
import TensorLowering.Operation

namespace TensorLowering

/-- Scales in messages are written in full, without an exponent and without a point after a whole
number; of two equally near shortest texts the greater is taken. -/
def scaleStyle : Decimal.Style where
  tie := .up
  positional := fun _ => true
  wholePoint := false

def scaleText (scale : Float32) : String :=
  match Decimal.Binary32.ofFloat scale with
  | .nan => "NaN"
  | .infinite negative => if negative then "-inf" else "inf"
  | .finite negative mantissa exponent => scaleStyle.finiteText negative mantissa exponent

inductive RefusedCall where
  | propagateScaleFactors
  | serializeParams
  | serializeData
  deriving DecidableEq, Repr

def RefusedCall.text : RefusedCall → String
  | propagateScaleFactors => "propagate_scale_factors"
  | serializeParams => "serialize_params"
  | serializeData => "serialize_data"

/-- The parts of a stage that can be read back by type: the parameters of a kind, or those together
with what was decided later. -/
inductive StagePart where
  | expandParams
  | expandStage
  | copyParams
  | copyStage
  | powerParams
  | powerStage
  deriving DecidableEq, Repr

/-- The full name of the part's type, as messages show it. -/
def StagePart.typeName : StagePart → String
  | expandParams => "stagegraph::stages::expand::ExpandParams"
  | expandStage => "stagegraph::stages::expand::ExpandStage"
  | copyParams => "stagegraph::stages::copy::CopyParams"
  | copyStage => "stagegraph::stages::copy::CopyStage"
  | powerParams => "stagegraph::stages::power::PowerParams"
  | powerStage => "stagegraph::stages::power::PowerStage"

inductive StageFault where
  | notWider (output : String) (outputExtents : AxisMap) (input : String) (inputExtents : AxisMap)
  | extentsDiffer (input : String) (inputExtents : AxisMap) (output : String)
      (outputExtents : AxisMap)
  | modeNotFinalized
  | writtenBeforeFinalization
  | nonFinite (params : PowerParams)
  | axesDiffer
  | inputLacksAxis (axis : Axis)
  | exceedsOutput (axis : Axis) (offset inputExtent outputExtent : Nat)
  | foreignOffset (axis : Axis)
  | nothingWidened
  deriving DecidableEq

def StageFault.message : StageFault → String
  | notWider output outputExtents input inputExtents =>
    "output `" ++ output ++ "` " ++ outputExtents.text ++ " is not wider than input `" ++ input ++
      "` " ++ inputExtents.text
  | extentsDiffer input inputExtents output outputExtents =>
    "input `" ++ input ++ "` dims " ++ inputExtents.text ++ " differ from output `" ++ output ++
      "` dims " ++ outputExtents.text
  | modeNotFinalized => "transfer mode was never finalized"
  | writtenBeforeFinalization => "serialized before layout finalization"
  | nonFinite params =>
    "non-finite params scale=" ++ scaleText params.scale ++ " shift=" ++ scaleText params.shift ++
      " power=" ++ scaleText params.power
  | axesDiffer => "input and output must name the same axes"
  | inputLacksAxis axis => "input lacks axis " ++ axis.text
  | exceedsOutput axis offset inputExtent outputExtent =>
    "axis " ++ axis.text ++ ": offset " ++ toString offset ++ " + input extent " ++
      toString inputExtent ++ " exceeds output extent " ++ toString outputExtent
  | foreignOffset axis => "offset names axis " ++ axis.text ++ " absent from output"
  | nothingWidened => "no axis is widened"

inductive TensorFault where
  | inputAsResult
  | orderOfNonInput
  | orderDoesNotCover (order : AxisOrder) (extents : AxisMap)
  | demandBeyondRank (stage : String) (position rank : Nat)
  | noAxisAt (position : Nat)
  | layout (violation : LayoutViolation)
  deriving DecidableEq

def TensorFault.message : TensorFault → String
  | inputAsResult => "a network input cannot be marked as a graph result"
  | orderOfNonInput => "only network inputs carry a frontend-chosen order"
  | orderDoesNotCover order extents =>
    "order " ++ order.text ++ " does not cover dims " ++ extents.text
  | demandBeyondRank stage position rank =>
    "stage `" ++ stage ++ "` constrains position " ++ toString position ++ " of a " ++
      toString rank ++ "-axis order"
  | noAxisAt position => "no axis at position " ++ toString position
  | layout violation => violation.message

/-- A defect of the graph or of its use, which no other model of the same network would cure. -/
inductive ContractError where
  | refused (stage : String) (kind : Kind) (call : RefusedCall)
  | wrongArity (stage : String) (kind : Kind) (inputs outputs : Nat)
  | alreadyProduced (tensor producer : String)
  | producedInput (tensor stage : String)
  | cycle (stage tensor : String)
  | unproduced (tensor : String)
  | orphan (tensor : String)
  | inconsistentEdge (stage tensor : String)
  | unknownTensor (id : TensorId)
  | unknownStage (id : StageId)
  | otherPart (stage : String) (expected : StagePart)
  | stageFault (stage : String) (kind : Kind) (fault : StageFault)
  | tensorFault (tensor : String) (fault : TensorFault)
  deriving DecidableEq

def ContractError.message : ContractError → String
  | refused stage kind call =>
    "stage `" ++ stage ++ "` (" ++ kind.text ++ "): " ++ call.text ++ " must never be called"
  | wrongArity stage kind inputs outputs =>
    "stage `" ++ stage ++ "` (" ++ kind.text ++ ") expects " ++ toString kind.arity.inputs ++
      " input(s) and " ++ toString kind.arity.outputs ++ " output(s), got " ++ toString inputs ++
      " and " ++ toString outputs
  | alreadyProduced tensor producer =>
    "data `" ++ tensor ++ "` is already produced by stage `" ++ producer ++ "`"
  | producedInput tensor stage =>
    "network input `" ++ tensor ++ "` cannot be produced by stage `" ++ stage ++ "`"
  | cycle stage tensor =>
    "wiring stage `" ++ stage ++ "` would create a cycle through data `" ++ tensor ++ "`"
  | unproduced tensor => "data `" ++ tensor ++ "` has no producer"
  | orphan tensor => "data `" ++ tensor ++ "` is neither produced nor consumed"
  | inconsistentEdge stage tensor =>
    "inconsistent edge between stage `" ++ stage ++ "` and data `" ++ tensor ++ "`"
  | unknownTensor id => "unknown data handle " ++ id.text
  | unknownStage id => "unknown stage handle " ++ id.text
  | otherPart stage expected =>
    "stage `" ++ stage ++ "` params are not of type " ++ expected.typeName
  | stageFault stage kind fault =>
    "stage `" ++ stage ++ "` (" ++ kind.text ++ "): assertion failed: " ++ fault.message
  | tensorFault tensor fault => "data `" ++ tensor ++ "`: " ++ fault.message

/-- An outcome that depends on the particular network and may be reported as an ordinary failure. -/
inductive NegotiationError where
  /-- Two stages ask for different strides. Without a source the existing one was there before. -/
  | conflict (tensor : String) (axis : Axis) (existing demanded : Slot) (source : Option String)
      (demandedBy : String)
  | notConverged (passes : List String) (rounds : Nat)
  | scaleMismatch (tensor stage : String) (current requested : Float32)
  | infeasibleStride (tensor : String) (stride : InfeasibleStride)
  deriving DecidableEq

def NegotiationError.message : NegotiationError → String
  | conflict tensor axis existing demanded source demandedBy =>
    let existingSource :=
      match source with
      | some stage => "stage `" ++ stage ++ "`"
      | none => "current requirement"
    "conflicting stride demands on `" ++ tensor ++ "` axis " ++ axis.text ++ ": " ++
      existing.text ++ " (" ++ existingSource ++ ") vs " ++ demanded.text ++ " (stage `" ++
      demandedBy ++ "`)"
  | notConverged passes rounds =>
    "fixed point over [" ++ String.intercalate ", " passes ++ "] still changing after " ++
      toString rounds ++ " iterations"
  | scaleMismatch tensor stage current requested =>
    "stage `" ++ stage ++ "` needs `" ++ tensor ++ "` at scale " ++ scaleText requested ++
      ", but it is already scaled by " ++ scaleText current
  | infeasibleStride tensor stride =>
    "`" ++ tensor ++ "` axis " ++ stride.axis.text ++ ": fixed stride " ++
      toString stride.demanded.toNat ++ " is below the minimum " ++ toString stride.minimum

/-- A value that the image cannot hold. -/
inductive ImageError where
  | unresolvedStrides (tensor : String)
  | overflow (field : String) (value : Nat)
  | outOfBounds (offset length : Nat)
  deriving DecidableEq, Repr

def ImageError.message : ImageError → String
  | unresolvedStrides tensor => "data `" ++ tensor ++ "` has no resolved strides"
  | overflow field value => field ++ " value " ++ toString value ++ " does not fit in u32"
  | outOfBounds offset length =>
    "patch at offset " ++ toString offset ++ " is outside the " ++ toString length ++ "-byte blob"

/-- A state that no sequence of operations leads to. -/
inductive InternalFault where
  /-- A stage was released more often than it has inputs. -/
  | releasedTooOften (stage : StageId)
  /-- A stride query went through more stages than the graph has. -/
  | queryTooDeep (stage : StageId)
  deriving DecidableEq, Repr

def InternalFault.message : InternalFault → String
  | releasedTooOften stage => "stage " ++ stage.text ++ " waits for fewer inputs than were released"
  | queryTooDeep stage => "stride query of stage " ++ stage.text ++ " runs in a circle"

inductive LoweringError where
  | contract (error : ContractError)
  | negotiation (error : NegotiationError)
  | image (error : ImageError)
  | internal (fault : InternalFault)
  deriving DecidableEq

namespace LoweringError

def message : LoweringError → String
  | contract error => error.message
  | negotiation error => error.message
  | image error => error.message
  | internal fault => fault.message

/-- Whether the failure is a defect, so that nothing should be tried again. -/
def isFatal : LoweringError → Bool
  | negotiation _ => false
  | _ => true

end LoweringError

end TensorLowering
