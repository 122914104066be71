import TensorLowering.Tensor

namespace TensorLowering

/-- A fixed stride that cannot hold the positions inside it. -/
structure InfeasibleStride where
  axis : Axis
  demanded : UInt32
  minimum : Nat
  deriving DecidableEq, Repr

/-- Why resolved strides do not fit the requirement. -/
inductive LayoutViolation where
  | unresolved
  | missingAxis (axis : Axis)
  | violates (axis : Axis) (stride : Nat) (slot : Slot)
  deriving DecidableEq, Repr

def LayoutViolation.message : LayoutViolation → String
  | unresolved => "strides were never resolved"
  | missingAxis axis => "no resolved stride for axis " ++ axis.text
  | violates axis stride slot =>
    "axis " ++ axis.text ++ " stride " ++ toString stride ++ " violates " ++ slot.text

/-- The stride that a slot leads to, where `minimum` bytes hold the inner positions; the bytes
asked for if they are too few. -/
def Slot.choose (slot : Slot) (minimum : Nat) : Except UInt32 Nat :=
  match slot with
  | .fixed bytes => if bytes.toNat < minimum then .error bytes else .ok bytes.toNat
  | _ => .ok minimum

namespace Tensor

/-- Enters a dense stride for each axis, where `stride` bytes hold the axes before them. -/
def denseFrom (tensor : Tensor) (stride : Nat) : List Axis → AxisMap → AxisMap
  | [], strides => strides
  | axis :: outer, strides =>
    tensor.denseFrom (stride * tensor.extent axis) outer (strides.set axis stride)

/-- The byte strides of the tensor without any padding, in its current order. -/
def denseStrides (tensor : Tensor) : AxisMap :=
  tensor.denseFrom tensor.type.size tensor.order.axes .empty

/-- Resolves the axes from a position outwards, where `minimum` bytes hold the positions inside. -/
def resolveFrom (tensor : Tensor) (position minimum : Nat) :
    List Axis → AxisMap → Except InfeasibleStride AxisMap
  | [], strides => .ok strides
  | axis :: outer, strides =>
    match (tensor.requirement.get position).choose minimum with
    | .error demanded => .error ⟨axis, demanded, minimum⟩
    | .ok stride =>
      tensor.resolveFrom (position + 1) (stride * tensor.extent axis) outer
        (strides.set axis stride)

/-- Chooses a byte stride for every position, from the innermost outwards: the fixed one where the
requirement fixes it, else the smallest that holds the positions inside. -/
def resolveStrides (tensor : Tensor) : Except InfeasibleStride AxisMap :=
  tensor.resolveFrom 0 tensor.type.size tensor.order.axes .empty

/-- Looks for the first axis, from a position outwards, whose stride breaks its slot. -/
def violationFrom? (tensor : Tensor) (strides : AxisMap) (position minimum : Nat) :
    List Axis → Option LayoutViolation
  | [] => none
  | axis :: outer =>
    match strides.get? axis with
    | none => some (.missingAxis axis)
    | some stride =>
      if tensor.requirement.isSatisfiedBy position stride minimum then
        tensor.violationFrom? strides (position + 1) (stride * tensor.extent axis) outer
      else
        some (.violates axis stride (tensor.requirement.get position))

/-- The innermost way in which the strides of the tensor break its requirement. -/
def layoutViolation? (tensor : Tensor) : Option LayoutViolation :=
  match tensor.strides with
  | none => some .unresolved
  | some strides => tensor.violationFrom? strides 0 tensor.type.size tensor.order.axes

def isDense (tensor : Tensor) : Bool := tensor.strides = some tensor.denseStrides

end Tensor

end TensorLowering
