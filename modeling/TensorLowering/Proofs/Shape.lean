import Mathlib.Data.List.Perm.Subperm
import TensorLowering.Proofs.Decisions
import TensorLowering.Proofs.Requirement

namespace TensorLowering

open Attempt

/-- The order names each axis of the shape once, the requirement keeps to the positions of the
order, and resolved strides are given for the axes of the shape. -/
structure Tensor.Shaped (tensor : Tensor) : Prop where
  nodup : tensor.order.axes.Nodup
  axes : ∀ axis, axis ∈ tensor.order.axes ↔ tensor.extents.has axis
  bounded : ∀ position, tensor.requirement.get position ≠ .any → position < tensor.order.rank
  resolved : ∀ strides, tensor.strides = some strides →
    ∀ axis, strides.has axis ↔ tensor.extents.has axis

/-- What every operation on a graph and every pass leaves behind. -/
structure Graph.WellFormed (g : Graph) : Prop where
  wired : g.Wired
  shaped : ∀ {id : TensorId} {tensor : Tensor}, g.tensors[id.index]? = some tensor → tensor.Shaped

/-- For an order that names no axis twice, covering a shape is naming its axes. -/
theorem AxisOrder.covers_iff {order : AxisOrder} {extents : AxisMap} (nodup : order.axes.Nodup) :
    order.covers extents ↔ ∀ axis, axis ∈ order.axes ↔ extents.has axis := by
  simp only [covers, Bool.and_eq_true, decide_eq_true_eq, List.all_eq_true]
  simp only [rank, AxisMap.size]
  constructor
  · intro found axis
    obtain ⟨length, inside⟩ := found
    have subset : order.axes ⊆ extents.axes := fun axis member =>
      AxisMap.mem_axes.mpr (inside axis member)
    have perm := (nodup.subperm subset).perm_of_length_le length.ge
    rw [perm.mem_iff, AxisMap.mem_axes]
  · intro same
    have perm : order.axes.Perm extents.axes :=
      (List.perm_ext_iff_of_nodup nodup extents.nodup_axes).mpr fun axis => by
        rw [same, AxisMap.mem_axes]
    exact ⟨perm.length_eq, fun axis member => (same axis).mp member⟩

namespace Tensor.Shaped

variable {tensor : Tensor}

theorem rank_eq (shaped : tensor.Shaped) : tensor.order.rank = tensor.extents.size := by
  have covers := (AxisOrder.covers_iff shaped.nodup).mpr shaped.axes
  simp only [AxisOrder.covers, Bool.and_eq_true, decide_eq_true_eq] at covers
  exact covers.1

/-- An order has no more axes than there are names for them. -/
theorem rank_le (shaped : tensor.Shaped) : tensor.order.rank ≤ maxAxes := by
  rw [shaped.rank_eq]
  exact List.length_filter_le _ Axis.all

theorem of_fresh (name : String) (type : ElementType) (extents : AxisMap) (role : Role) :
    (Tensor.fresh name type extents role).Shaped where
  nodup := extents.nodup_axes
  axes _ := AxisMap.mem_axes
  bounded position asks := absurd (Requirement.get_empty position) asks
  resolved _ none := by cases none

theorem with_order (shaped : tensor.Shaped) {order : AxisOrder} (nodup : order.axes.Nodup)
    (covers : order.covers tensor.extents) : { tensor with order := order }.Shaped where
  nodup := nodup
  axes := (AxisOrder.covers_iff nodup).mp covers
  bounded position asks := by
    have length : order.rank = tensor.extents.size := by
      simp only [AxisOrder.covers, Bool.and_eq_true, decide_eq_true_eq] at covers
      exact covers.1
    rw [length, ← shaped.rank_eq]
    exact shaped.bounded position asks
  resolved := shaped.resolved

theorem with_requirement (shaped : tensor.Shaped) {demand merged : Requirement} {changed : Bool}
    (bounded : ∀ position, demand.get position ≠ .any → position < tensor.order.rank)
    (joined : tensor.requirement.merge demand = (merged, .ok changed)) :
    { tensor with requirement := merged }.Shaped where
  nodup := shaped.nodup
  axes := shaped.axes
  bounded position asks := by
    rcases (Requirement.isGreatest_merge joined position).1 with same | same
    · exact shaped.bounded position (same ▸ asks)
    · exact bounded position (same ▸ asks)
  resolved := shaped.resolved

end Tensor.Shaped

theorem Tensor.has_of_resolveFrom {tensor : Tensor} {position minimum : Nat} {axes : List Axis}
    {strides result : AxisMap}
    (resolved : tensor.resolveFrom position minimum axes strides = .ok result) (axis : Axis) :
    result.has axis ↔ axis ∈ axes ∨ strides.has axis := by
  induction axes generalizing position minimum strides with
  | nil =>
    cases resolved
    simp
  | cons first outer ih =>
    unfold resolveFrom at resolved
    split at resolved
    · cases resolved
    · rw [ih resolved]
      simp only [AxisMap.has_set, Bool.or_eq_true, decide_eq_true_eq, List.mem_cons]
      tauto

theorem Tensor.Shaped.with_strides {tensor : Tensor} (shaped : tensor.Shaped) {strides : AxisMap}
    (chosen : tensor.resolveStrides = .ok strides) :
    { tensor with strides := some strides }.Shaped where
  nodup := shaped.nodup
  axes := shaped.axes
  bounded := shaped.bounded
  resolved found same axis := by
    cases same
    rw [Tensor.has_of_resolveFrom chosen]
    simp [shaped.axes, AxisMap.has]

namespace Graph

variable {g : Graph}

/-- A change that keeps the built part and the shape of the one tensor it is made to. -/
theorem WellFormed.modifyTensor (formed : g.WellFormed) {id : TensorId}
    {change : Tensor → Tensor} (same : ∀ tensor, (change tensor).undecided = tensor.undecided)
    (shaped : ∀ tensor, g.tensors[id.index]? = some tensor → (change tensor).Shaped) :
    (g.modifyTensor id change).WellFormed where
  wired := formed.wired.of_undecided_eq (undecided_modifyTensor same)
  shaped := by
    intro other tensor atOther
    rw [tensors_modifyTensor] at atOther
    split at atOther
    · obtain ⟨before, atBefore, rfl⟩ := Option.map_eq_some_iff.mp atOther
      rename_i here
      exact shaped before (here ▸ atBefore)
    · exact formed.shaped atOther

theorem undecided_modifyStage {id : StageId} {change : Stage → Stage}
    (same : ∀ stage, (change stage).undecided = stage.undecided) :
    (g.modifyStage id change).undecided = g.undecided := by
  simp only [undecided, modifyStage, mk.injEq, true_and]
  exact map_modify_eq same

theorem wellFormed_scale (inputScales : TensorMap Float32) :
    Keeps WellFormed (Scale.propagate inputScales) :=
  Scale.propagate_keeps (fun _ _ _ formed => formed.modifyTensor (fun _ => rfl) fun _ atId =>
    let shaped := formed.shaped atId
    ⟨shaped.nodup, shaped.axes, shaped.bounded, shaped.resolved⟩) inputScales

theorem wellFormed_order : Keeps WellFormed AxisOrder.propagate :=
  AxisOrder.propagate_keeps fun _ _ formed hosts covers =>
    formed.modifyTensor (fun _ => rfl) fun tensor atId => by
      obtain rfl := Option.some.inj (hosts.output.symm.trans atId)
      exact (formed.shaped hosts.output).with_order (formed.shaped hosts.input).nodup covers

theorem wellFormed_negotiate : Keeps WellFormed Negotiation.negotiate :=
  Negotiation.negotiate_keeps fun _ _ tensor _ _ formed atId bounded joined =>
    formed.modifyTensor (fun _ => rfl) fun tensor' atId' => by
      rw [atId] at atId'
      cases atId'
      exact (formed.shaped atId).with_requirement bounded joined

theorem wellFormed_batch : Keeps WellFormed Batching.determine :=
  Batching.determine_keeps fun _ _ _ formed => formed.modifyTensor (fun _ => rfl) fun _ atId =>
    let shaped := formed.shaped atId
    ⟨shaped.nodup, shaped.axes, shaped.bounded, shaped.resolved⟩

theorem WellFormed.setStrides (formed : g.WellFormed) {id : TensorId} {tensor : Tensor}
    {strides : AxisMap} (atId : g.tensors[id.index]? = some tensor)
    (chosen : tensor.resolveStrides = .ok strides) :
    (g.modifyTensor id fun tensor => { tensor with strides := some strides }).WellFormed :=
  formed.modifyTensor (fun _ => rfl) fun tensor' atId' => by
    rw [atId] at atId'
    cases atId'
    exact (formed.shaped atId).with_strides chosen

theorem WellFormed.decideMode (formed : g.WellFormed) (id : StageId) (mode : CopyMode) :
    (g.modifyStage id fun stage =>
      { stage with operation := stage.operation.decideMode mode }).WellFormed :=
  ⟨formed.wired.of_undecided_eq (undecided_modifyStage fun stage => by simp [Stage.undecided]),
    formed.shaped⟩

theorem wellFormed_finalize : Keeps WellFormed Layout.finalize :=
  Layout.finalize_keeps (fun _ _ _ _ formed atId chosen => formed.setStrides atId chosen)
    fun _ id mode formed => formed.decideMode id mode

end Graph

end TensorLowering
