import Mathlib
import TensorLowering.Proofs.Reachable
import TensorLowering.Proofs.Strides

namespace TensorLowering

open Attempt

/-- Each axis has a stride that the positions inside it fit under. `minimum` bytes hold what is
inside the first one. -/
def AxisMap.Nests (strides : AxisMap) (extent : Axis → Nat) (minimum : Nat) : List Axis → Prop
  | [] => True
  | axis :: outer => minimum ≤ (strides.get? axis).getD 0 ∧
      strides.Nests extent ((strides.get? axis).getD 0 * extent axis) outer

namespace Tensor

variable {tensor other : Tensor} {order : AxisOrder} {strides : AxisMap}

/-- The strides are what some requirement leads to under the order. Later changes of the order or of
the requirement leave them in place, so these need not be the ones that the tensor has now. -/
structure LaidOut (tensor : Tensor) (order : AxisOrder) (strides : AxisMap) : Prop where
  nodup : order.axes.Nodup
  covers : order.covers tensor.extents
  resolves : ∃ requirement,
    { tensor with order := order, requirement := requirement }.resolveStrides = .ok strides

/-- An element of the tensor, by its coordinate along each axis. Along an axis that the tensor lacks
there is only the coordinate zero. -/
@[ext] structure Place (tensor : Tensor) where
  along : Axis → Nat
  inside : ∀ axis, along axis < tensor.extent axis

/-- The byte offset of the coordinates along some axes. -/
def Place.offsetAlong (place : tensor.Place) (strides : AxisMap) (axes : List Axis) : Nat :=
  (axes.map fun axis => place.along axis * (strides.get? axis).getD 0).sum

/-- The bytes that hold an element. -/
def Place.bytes (place : tensor.Place) (strides : AxisMap) : Set Nat :=
  let offset := place.offsetAlong strides tensor.extents.axes
  Set.Ico offset (offset + tensor.type.size)

/-- Two elements of the given size that start at these offsets have no byte in common. -/
def Apart (size offset offset' : Nat) : Prop :=
  offset + size ≤ offset' ∨ offset' + size ≤ offset

theorem Follows.nests {position minimum : Nat} {axes : List Axis}
    (follows : tensor.Follows strides position minimum axes) :
    strides.Nests tensor.extent minimum axes := by
  induction axes generalizing position minimum with
  | nil => trivial
  | cons axis outer ih =>
    obtain ⟨stride, found, chose, later⟩ := follows
    simp only [AxisMap.Nests, found, Option.getD_some]
    exact ⟨Slot.le_of_choose chose, ih later⟩

theorem LaidOut.nests (laid : tensor.LaidOut order strides) :
    strides.Nests tensor.extent tensor.type.size order.axes := by
  obtain ⟨requirement, resolves⟩ := laid.resolves
  exact (resolveFrom_ok laid.nodup resolves).1.nests

theorem LaidOut.perm (laid : tensor.LaidOut order strides) :
    order.axes.Perm tensor.extents.axes :=
  (List.perm_ext_iff_of_nodup laid.nodup tensor.extents.nodup_axes).mpr fun axis => by
    rw [(AxisOrder.covers_iff laid.nodup).mp laid.covers, AxisMap.mem_axes]

theorem LaidOut.offsetAlong_eq (laid : tensor.LaidOut order strides) (place : tensor.Place) :
    place.offsetAlong strides tensor.extents.axes = place.offsetAlong strides order.axes :=
  (laid.perm.symm.map _).sum_eq

/-- Along one axis, an element ends at the latest where the next coordinate begins. -/
theorem Place.add_along_mul_le {size offset stride along along' : Nat}
    (fits : offset + size ≤ stride) (before : along < along') :
    offset + along * stride + size ≤ along' * stride := by
  have next : (along + 1) * stride ≤ along' * stride := Nat.mul_le_mul_right _ before
  rw [Nat.succ_mul] at next
  omega

/-- An element that fits into the bytes inside an axis ends before the axis does. -/
theorem Place.add_along_mul_le_extent (place : tensor.Place) {size offset stride : Nat}
    (fits : offset + size ≤ stride) (axis : Axis) :
    offset + place.along axis * stride + size ≤ stride * tensor.extent axis := by
  rw [Nat.mul_comm stride]
  exact add_along_mul_le fits (place.inside axis)

/-- Going outwards, elements that are apart stay apart, and from the first axis along which they
differ they are. -/
theorem Place.apart {size minimum offset offset' : Nat} {axes : List Axis}
    (place place' : tensor.Place) (nests : strides.Nests tensor.extent minimum axes)
    (fits : offset + size ≤ minimum) (fits' : offset' + size ≤ minimum)
    (differ : Apart size offset offset' ∨ ∃ axis ∈ axes, place.along axis ≠ place'.along axis) :
    Apart size (offset + place.offsetAlong strides axes)
      (offset' + place'.offsetAlong strides axes) := by
  induction axes generalizing minimum offset offset' with
  | nil => simpa [Place.offsetAlong] using differ
  | cons axis outer ih =>
    obtain ⟨above, later⟩ := nests
    have here := place.add_along_mul_le_extent (fits.trans above) axis
    have here' := place'.add_along_mul_le_extent (fits'.trans above) axis
    simp only [Place.offsetAlong, List.map_cons, List.sum_cons, ← Nat.add_assoc]
    refine ih later here here' ?_
    rcases Nat.lt_trichotomy (place.along axis) (place'.along axis) with less | same | greater
    · have ends := Place.add_along_mul_le (fits.trans above) less
      exact .inl (.inl (by omega))
    · rcases differ with apart | found
      · rw [same]
        unfold Apart at apart ⊢
        omega
      · obtain ⟨found, member, differ⟩ := found
        rcases List.mem_cons.mp member with rfl | outside
        · exact absurd same differ
        · exact .inr ⟨found, outside, differ⟩
    · have ends := Place.add_along_mul_le (fits'.trans above) greater
      exact .inl (.inr (by omega))

/-- Resolving reads the requirement and the extents only. -/
theorem resolveFrom_congr (requirement : tensor.requirement = other.requirement)
    (extents : tensor.extents = other.extents) {position minimum : Nat} {axes : List Axis} :
    tensor.resolveFrom position minimum axes strides =
      other.resolveFrom position minimum axes strides := by
  induction axes generalizing position minimum strides with
  | nil => rfl
  | cons axis outer ih => simp only [resolveFrom, extent, requirement, extents, ih]

theorem LaidOut.congr (laid : tensor.LaidOut order strides) (type : other.type = tensor.type)
    (extents : other.extents = tensor.extents) : other.LaidOut order strides := by
  obtain ⟨requirement, resolves⟩ := laid.resolves
  refine ⟨laid.nodup, extents ▸ laid.covers, requirement, ?_⟩
  rw [← resolves]
  simp only [resolveStrides, type]
  refine resolveFrom_congr ?_ ?_
  · rfl
  · exact extents

theorem Shaped.laidOut (shaped : tensor.Shaped) (chosen : tensor.resolveStrides = .ok strides) :
    tensor.LaidOut tensor.order strides :=
  ⟨shaped.nodup, (AxisOrder.covers_iff shaped.nodup).mpr shaped.axes, tensor.requirement, chosen⟩

end Tensor

namespace Graph

variable {g : Graph}

/-- Whatever strides a tensor has, they were resolved under an order of its axes. -/
def LaidOut (g : Graph) : Prop :=
  ∀ (id : TensorId) (tensor : Tensor) (strides : AxisMap), g.tensors[id.index]? = some tensor →
    tensor.strides = some strides → ∃ order, tensor.LaidOut order strides

/-- The layout of a tensor outlasts a change of anything but its type, extents and strides. -/
theorem LaidOut.of_same (laid : g.LaidOut) {h : Graph} (change : TensorId → Tensor → Tensor)
    (tensors : ∀ id : TensorId, h.tensors[id.index]? = (g.tensors[id.index]?).map (change id))
    (same : ∀ id tensor, (change id tensor).type = tensor.type ∧
      (change id tensor).extents = tensor.extents ∧ (change id tensor).strides = tensor.strides) :
    h.LaidOut := by
  intro id tensor strides atId resolved
  rw [tensors, Option.map_eq_some_iff] at atId
  obtain ⟨before, atBefore, rfl⟩ := atId
  obtain ⟨type, extents, kept⟩ := same id before
  obtain ⟨order, laidOut⟩ := laid id before strides atBefore (kept ▸ resolved)
  exact ⟨order, laidOut.congr type extents⟩

theorem LaidOut.modifyTensor (laid : g.LaidOut) (id : TensorId) {change : Tensor → Tensor}
    (same : ∀ tensor, (change tensor).type = tensor.type ∧
      (change tensor).extents = tensor.extents ∧ (change tensor).strides = tensor.strides) :
    (g.modifyTensor id change).LaidOut := by
  refine laid.of_same (fun other tensor => if other = id then change tensor else tensor)
    (fun other => ?_) fun other tensor => ?_
  · rw [tensors_modifyTensor]
    by_cases here : other = id <;> simp [here]
  · by_cases here : other = id
    · simpa [here] using same tensor
    · simp [here]

theorem LaidOut.setStrides (laid : g.LaidOut) (formed : g.WellFormed) {id : TensorId}
    {tensor : Tensor} {strides : AxisMap} (atId : g.tensors[id.index]? = some tensor)
    (chosen : tensor.resolveStrides = .ok strides) :
    (g.modifyTensor id fun tensor => { tensor with strides := some strides }).LaidOut := by
  intro other found strides' atOther resolved
  rw [tensors_modifyTensor] at atOther
  split at atOther
  · rename_i here
    subst here
    rw [atId] at atOther
    cases atOther
    cases resolved
    exact ⟨tensor.order, ((formed.shaped atId).laidOut chosen).congr rfl rfl⟩
  · exact laid other found strides' atOther resolved

theorem LaidOut.insertStage (laid : g.LaidOut) {stage : Stage} {id : StageId} {after : Graph}
    (inserted : g.insertStage stage = .ok (id, after)) : after.LaidOut := by
  obtain ⟨-, -, rfl⟩ := insertStage_eq_ok_iff.mp inserted
  exact laid.of_same _ (tensors_connect g stage) fun _ _ => ⟨rfl, rfl, rfl⟩

theorem keeps_laidOut_of_mem {settings : Settings} {pass : Pass Workspace}
    (member : pass ∈ Pass.all settings) :
    Attempt.Keeps (fun w : Workspace => w.graph.WellFormed ∧ w.graph.LaidOut) pass.run := by
  refine @Pass.keeps_of_mem (fun g => g.WellFormed ∧ g.LaidOut) settings
    ((wellFormed_scale settings.inputScales).and ?_) (wellFormed_order.and ?_)
    (wellFormed_negotiate.and ?_) (wellFormed_batch.and ?_) ?_ pass member
  · exact Scale.propagate_keeps
      (fun _ id _ laid => laid.modifyTensor id fun _ => ⟨rfl, rfl, rfl⟩) _
  · exact AxisOrder.propagate_keeps
      fun _ site laid _ _ => laid.modifyTensor site.outputId fun _ => ⟨rfl, rfl, rfl⟩
  · exact Negotiation.negotiate_keeps
      fun _ id _ _ _ laid _ _ _ => laid.modifyTensor id fun _ => ⟨rfl, rfl, rfl⟩
  · exact Batching.determine_keeps
      fun _ id _ laid => laid.modifyTensor id fun _ => ⟨rfl, rfl, rfl⟩
  · exact Layout.finalize_keeps
      (fun _ _ _ _ before atId chosen =>
        ⟨before.1.setStrides atId chosen, before.2.setStrides before.1 atId chosen⟩)
      fun _ id mode before => ⟨before.1.decideMode id mode, before.2⟩

theorem Reachable.laidOut (reachable : g.Reachable) : g.LaidOut := by
  induction reachable with
  | empty name => simp [LaidOut, Graph.empty]
  | addTensor name type extents _ _ ih =>
    intro id tensor strides atId resolved
    simp only [Graph.addTensor, Array.getElem?_push] at atId
    split at atId
    · cases atId
      cases resolved
    · exact ih id tensor strides atId resolved
  | markOutput _ marked ih =>
    obtain ⟨_, -, -, rfl⟩ := markOutput_eq_ok_iff.mp marked
    exact ih.modifyTensor _ fun _ => ⟨rfl, rfl, rfl⟩
  | setInputOrder _ _ chosen ih =>
    obtain ⟨_, -, -, -, rfl⟩ := setInputOrder_eq_ok_iff.mp chosen
    exact ih.modifyTensor _ fun _ => ⟨rfl, rfl, rfl⟩
  | addCopy _ inserted ih => exact ih.insertStage inserted
  | addPower _ inserted ih => exact ih.insertStage inserted
  | addExpand _ inserted ih => exact ih.insertStage inserted
  | addDetached _ _ _ inserted ih => exact ih.insertStage inserted
  | @pass w settings pass reachable member ih =>
    exact (Attempt.keeps_iff_state.mp (keeps_laidOut_of_mem member) w
      ⟨reachable.wellFormed, ih⟩).2

end Graph

end TensorLowering
