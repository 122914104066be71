import TensorLowering.AxisOrder.Basic
import TensorLowering.Stride.Requirement
import TensorLowering.Handle

namespace TensorLowering

inductive ElementType where
  | fp16
  | fp32
  | u8
  | s32
  deriving DecidableEq, Repr

namespace ElementType

def size : ElementType → Nat
  | u8 => 1
  | fp16 => 2
  | fp32 => 4
  | s32 => 4

def code : ElementType → UInt32
  | fp16 => 0
  | u8 => 1
  | s32 => 2
  | fp32 => 3

def name : ElementType → String
  | fp16 => "Fp16"
  | fp32 => "Fp32"
  | u8 => "U8"
  | s32 => "S32"

end ElementType

/-- What a tensor is to the network: something given to it, something inside it, or a result. -/
inductive Role where
  | input
  | intermediate
  | output
  deriving DecidableEq, Repr

def Role.name : Role → String
  | input => "Input"
  | intermediate => "Intermediate"
  | output => "Output"

/-- Whether the batch axis of a tensor may be split for parallel execution, or has to be processed
as a whole. -/
inductive Batching where
  | split
  | whole
  deriving DecidableEq, Repr

def Batching.name : Batching → String
  | split => "Split"
  | whole => "Whole"

/-- A tensor of the graph. Name, type, extents and role come from the network; order, requirement,
strides, scale and batching are decided by the passes; producer and consumers are the wiring. -/
structure Tensor where
  name : String
  type : ElementType
  extents : AxisMap
  role : Role
  order : AxisOrder
  requirement : Requirement
  /-- Byte strides, once they are resolved. -/
  strides : Option AxisMap
  scale : Float32
  batching : Batching
  producer : Option StageId
  /-- The stages that read the tensor, in the order in which they were wired. -/
  consumers : List StageId
  deriving DecidableEq

namespace Tensor

/-- A tensor that nothing is wired to and nothing is decided about. -/
def fresh (name : String) (type : ElementType) (extents : AxisMap) (role : Role) : Tensor where
  name := name
  type := type
  extents := extents
  role := role
  order := .planar extents
  requirement := .empty
  strides := none
  scale := 1.0
  batching := .split
  producer := none
  consumers := []

/-- The extent along an axis; an axis that the tensor lacks counts as one element wide. -/
def extent (tensor : Tensor) (axis : Axis) : Nat := (tensor.extents.get? axis).getD 1

theorem extent_eq_one {tensor : Tensor} {axis : Axis} (lacks : ¬tensor.extents.has axis) :
    tensor.extent axis = 1 := by
  rw [extent, AxisMap.get?_eq_none_iff.mpr lacks]
  rfl

def elements (tensor : Tensor) : Nat := tensor.extents.product

/-- What is asked of a named axis under the current order. -/
def slotFor (tensor : Tensor) (axis : Axis) : Slot :=
  match tensor.order.position? axis with
  | some position => tensor.requirement.get position
  | none => .any

end Tensor

end TensorLowering
