import TensorLowering.Proofs.Failures

namespace TensorLowering

namespace Tensor

variable {tensor : Tensor}

/-- The byte stride at a position, once the strides are resolved. -/
def strideAt? (tensor : Tensor) (position : Nat) : Option Nat := do
  let strides ← tensor.strides
  let axis ← tensor.order.axisAt? position
  strides.get? axis

/-- The bytes that hold the positions inside one, as far as they are resolved. -/
def spanBelow (tensor : Tensor) : Nat → Nat
  | 0 => tensor.type.size
  | position + 1 => (tensor.strideAt? position).getD 0 *
      ((tensor.order.axisAt? position).elim 1 tensor.extent)

/-- Strides that follow the requirement for some axes, from a position outwards. -/
def Follows (tensor : Tensor) (strides : AxisMap) (position minimum : Nat) : List Axis → Prop
  | [] => True
  | axis :: outer => ∃ stride, strides.get? axis = some stride ∧
      (tensor.requirement.get position).choose minimum = .ok stride ∧
      tensor.Follows strides (position + 1) (stride * tensor.extent axis) outer

/-- Resolving enters a stride for every axis, and later axes do not replace it. -/
theorem resolveFrom_ok {position minimum : Nat} {axes : List Axis} {strides resolved : AxisMap}
    (nodup : axes.Nodup)
    (chosen : tensor.resolveFrom position minimum axes strides = .ok resolved) :
    tensor.Follows resolved position minimum axes ∧
      ∀ axis, axis ∉ axes → resolved.get? axis = strides.get? axis := by
  induction axes generalizing position minimum strides with
  | nil =>
    cases chosen
    exact ⟨trivial, fun _ _ => rfl⟩
  | cons axis outer ih =>
    obtain ⟨fresh, nodup'⟩ := List.nodup_cons.mp nodup
    unfold resolveFrom at chosen
    split at chosen
    · cases chosen
    · rename_i stride chose
      obtain ⟨follows, kept⟩ := ih nodup' chosen
      refine ⟨⟨stride, ?_, chose, follows⟩, fun other absent => ?_⟩
      · rw [kept axis fresh, AxisMap.get?_set, if_pos rfl]
      · rw [kept other (List.not_mem_of_not_mem_cons absent), AxisMap.get?_set,
          if_neg (List.ne_of_not_mem_cons absent)]

/-- Strides that follow the requirement from the innermost position do so from every position. -/
theorem Follows.drop {strides : AxisMap} (atStrides : tensor.strides = some strides)
    (follows : tensor.Follows strides 0 tensor.type.size tensor.order.axes) (position : Nat) :
    tensor.Follows strides position (tensor.spanBelow position)
      (tensor.order.axes.drop position) := by
  induction position with
  | zero => exact follows
  | succ position ih =>
    by_cases inside : position < tensor.order.axes.length
    · have atPosition : tensor.order.axisAt? position = some tensor.order.axes[position] :=
        List.getElem?_eq_getElem inside
      rw [List.drop_eq_getElem_cons inside] at ih
      obtain ⟨stride, found, -, outer⟩ := ih
      have here : tensor.strideAt? position = some stride := by
        simp [strideAt?, atStrides, atPosition, found]
      simpa [spanBelow, here, atPosition] using outer
    · rw [List.drop_eq_nil_of_le (by omega)]
      trivial

/-- The stride at each position is chosen by its slot, from the bytes that the positions inside
take. -/
theorem Resolved.choose_spanBelow (resolved : tensor.Resolved) (nodup : tensor.order.axes.Nodup)
    {position : Nat} (inside : position < tensor.order.rank) :
    ∃ stride, tensor.strideAt? position = some stride ∧
      (tensor.requirement.get position).choose (tensor.spanBelow position) = .ok stride := by
  obtain ⟨strides, chosen, atStrides⟩ := resolved
  have follows := (resolveFrom_ok nodup chosen).1.drop atStrides position
  rw [List.drop_eq_getElem_cons inside] at follows
  obtain ⟨stride, found, chose, -⟩ := follows
  refine ⟨stride, ?_, chose⟩
  simp [strideAt?, atStrides, AxisOrder.axisAt?, List.getElem?_eq_getElem inside, found]

end Tensor

theorem Slot.eq_of_choose_fixed {bytes : UInt32} {minimum stride : Nat}
    (chose : (fixed bytes).choose minimum = .ok stride) : stride = bytes.toNat := by
  simp only [choose] at chose
  split at chose
  · cases chose
  · exact (Except.ok.inj chose).symm

theorem Slot.le_of_choose {slot : Slot} {minimum stride : Nat}
    (chose : slot.choose minimum = .ok stride) : minimum ≤ stride := by
  cases slot with
  | any => exact (Except.ok.inj chose).le
  | compact => exact (Except.ok.inj chose).le
  | fixed bytes =>
    simp only [choose] at chose
    split at chose
    · cases chose
    · rename_i fits
      cases chose
      exact Nat.le_of_not_lt fits

end TensorLowering
