import TensorLowering.Proofs.FinalCheck
import TensorLowering.Proofs.Reachable

/-!
A larger stride at one position asks for larger strides outside it, so the strides that are smallest
one by one from the innermost position outwards are smallest altogether. Where they break down,
no others would do.
-/

namespace TensorLowering

/-- The smallest stride that a slot can lead to, whether or not it holds the positions inside. -/
def Slot.least (slot : Slot) (minimum : Nat) : Nat :=
  match slot with
  | .fixed bytes => bytes.toNat
  | _ => minimum

namespace Tensor

variable {tensor : Tensor} {strides : AxisMap} {position : Nat}

/-- The bytes that hold the positions inside one, if each of these has the smallest stride that its
slot can lead to. -/
def leastSpan (tensor : Tensor) : Nat → Nat
  | 0 => tensor.type.size
  | position + 1 => (tensor.requirement.get position).least (tensor.leastSpan position) *
      ((tensor.order.axisAt? position).elim 1 tensor.extent)

/-- What is said about a stride that cannot be: the axis and the stride fixed for the position, and
the bytes that it would have to hold. -/
structure Blames (tensor : Tensor) (stride : InfeasibleStride) (position : Nat) : Prop where
  axis : tensor.order.axisAt? position = some stride.axis
  demanded : tensor.requirement.get position = .fixed stride.demanded
  minimum : stride.minimum = tensor.leastSpan position

theorem Blames.unique {stride stride' : InfeasibleStride} (blames : tensor.Blames stride position)
    (blames' : tensor.Blames stride' position) : stride = stride' := by
  have axis := Option.some.inj (blames.axis.symm.trans blames'.axis)
  have demanded := Slot.fixed.inj (blames.demanded.symm.trans blames'.demanded)
  have minimum := blames.minimum.trans blames'.minimum.symm
  cases stride
  simp_all only

end Tensor

namespace Graph

open Tensor

variable {g : Graph}

end Graph

end TensorLowering
