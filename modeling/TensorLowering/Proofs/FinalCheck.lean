import TensorLowering.Proofs.Foreseen
import TensorLowering.Proofs.Strides

/-!
Once orders, requirements, strides and modes are decided, the last check finds only what was wrong
with the network from the start.
-/

namespace TensorLowering

open Attempt

/-- A copy has its mode. -/
def Operation.Decided : Operation → Prop
  | .copy _ mode => mode.isSome
  | _ => True

theorem Graph.Site.ModeChosen.decided {site : Site} (chosen : site.ModeChosen) :
    site.stage.operation.Decided := by
  unfold ModeChosen at chosen
  cases operation : site.stage.operation with
  | copy demands mode =>
    rw [operation] at chosen
    simp only [Operation.decideMode, Operation.copy.injEq, true_and] at chosen
    simp [chosen, Operation.Decided]
  | _ => trivial

/-- A stride that a slot leads to satisfies it. -/
theorem Requirement.isSatisfiedBy_of_choose {r : Requirement} {position minimum stride : Nat}
    (chose : (r.get position).choose minimum = .ok stride) :
    r.isSatisfiedBy position stride minimum := by
  unfold isSatisfiedBy
  cases slot : r.get position with
  | any =>
    rw [slot] at chose
    cases chose
    simp
  | compact =>
    rw [slot] at chose
    cases chose
    simp
  | fixed bytes =>
    rw [slot] at chose
    simpa using Slot.eq_of_choose_fixed chose

namespace Tensor

variable {tensor : Tensor}

theorem Follows.violationFrom?_eq_none {strides : AxisMap} {position minimum : Nat}
    {axes : List Axis} (follows : tensor.Follows strides position minimum axes) :
    tensor.violationFrom? strides position minimum axes = none := by
  induction axes generalizing position minimum with
  | nil => rfl
  | cons axis outer ih =>
    obtain ⟨stride, found, chose, later⟩ := follows
    simp only [violationFrom?, found, Requirement.isSatisfiedBy_of_choose chose, if_true]
    exact ih later

theorem Resolved.layoutViolation?_eq_none (resolved : tensor.Resolved)
    (nodup : tensor.order.axes.Nodup) : tensor.layoutViolation? = none := by
  obtain ⟨strides, chosen, atStrides⟩ := resolved
  simp only [layoutViolation?, atStrides]
  exact (resolveFrom_ok nodup chosen).1.violationFrom?_eq_none

end Tensor

namespace Graph

/-- Every decision that the last check looks at has been made. -/
structure Settled (g : Graph) : Prop where
  formed : g.WellFormed
  aligned : g.Aligned
  widens : ∀ site, g.Hosts site → site.Widens
  resolved : ∀ {id : TensorId} {tensor : Tensor}, g.tensors[id.index]? = some tensor →
    tensor.Resolved
  decided : ∀ (id : StageId) (stage : Stage), g.stages[id.index]? = some stage →
    stage.operation.Decided

variable {g : Graph} {maxRounds : Nat}

theorem Site.ensure_error {site : Site} {holds : Bool} {fault : StageFault} {error : LoweringError}
    (failed : site.ensure holds fault = .error error) :
    holds = false ∧ error = site.stage.fault fault := by
  cases holds with
  | true => cases failed
  | false =>
    cases failed
    exact ⟨rfl, rfl⟩

/-- The last check is a matter of each stage and of each tensor. -/
theorem checkFinal_eq_ok_iff (wired : g.Wired) :
    g.checkFinal = .ok () ↔
      (∀ site, g.Hosts site → g.checkStageFinal site.id = .ok ()) ∧
        ∀ {id : TensorId} {tensor : Tensor}, g.tensors[id.index]? = some tensor →
          tensor.layoutViolation? = none := by
  obtain ⟨order, scheduled, ordered⟩ := wired.exists_schedule
  have layout {id : TensorId} {tensor : Tensor} (atId : g.tensors[id.index]? = some tensor) :
      g.checkTensorLayout id = .ok () ↔ tensor.layoutViolation? = none := by
    simp only [checkTensorLayout, tensor_eq_ok_iff.mpr atId, bind, Except.bind]
    cases tensor.layoutViolation? <;> simp [pure, Except.pure, throw, throwThe, MonadExceptOf.throw]
  have parts : g.checkFinal = .ok () ↔ order.forM g.checkStageFinal = .ok ⟨⟩ ∧
      g.tensorIds.forM g.checkTensorLayout = .ok ⟨⟩ := by
    simp only [checkFinal, scheduled, bind_eq_ok, Except.ok.injEq, exists_eq_left']
    exact ⟨fun ⟨_, stages, tensors⟩ => ⟨stages, tensors⟩, fun both => ⟨_, both⟩⟩
  rw [parts, forM_eq_ok_iff, forM_eq_ok_iff]
  refine and_congr ⟨fun all site hosts => ?_, fun all id member => ?_⟩
    ⟨fun all id tensor atId => ?_, fun all id member => ?_⟩
  · exact all site.id ((ordered.mem_iff site.id).mpr hosts.mem_stageIds)
  · obtain ⟨site, hosts, rfl⟩ := wired.site_of_mem ((ordered.mem_iff id).mp member)
    exact all site hosts
  · exact (layout atId).mp (all id (mem_tensorIds.mpr (Array.getElem?_eq_some_iff.mp atId).1))
  · have atId := Array.getElem?_eq_getElem (mem_tensorIds.mp member)
    exact (layout atId).mpr (all atId)

theorem Site.checkSameExtents_error {site : Site} {error : LoweringError}
    (kind : site.stage.kind ≠ .expand) (failed : site.checkSameExtents = .error error) :
    Foreseen maxRounds error := by
  obtain ⟨differ, rfl⟩ := Site.ensure_error failed
  exact .extentsDiffer kind (of_decide_eq_false differ)

namespace Settled

/-- Aligned tensors have the same axes. -/
theorem has_iff (settled : g.Settled) {site : Site} (hosts : g.Hosts site) (axis : Axis) :
    site.input.extents.has axis ↔ site.output.extents.has axis := by
  rw [← (settled.formed.shaped hosts.input).axes, ← (settled.formed.shaped hosts.output).axes,
    settled.aligned site hosts]

theorem size_eq (settled : g.Settled) {site : Site} (hosts : g.Hosts site) :
    site.input.extents.size = site.output.extents.size := by
  rw [← (settled.formed.shaped hosts.input).rank_eq, ← (settled.formed.shaped hosts.output).rank_eq,
    settled.aligned site hosts]

/-- An input that is placed along an axis of its output has that axis, so it can only end too far
out. -/
theorem checkPlacement_error (settled : g.Settled) {site : Site} (hosts : g.Hosts site)
    {offset : AxisMap} (operation : site.stage.operation = .expand offset) {entry : Axis × Nat}
    (member : entry ∈ site.output.extents.toList) {error : LoweringError}
    (failed : site.checkPlacement offset entry = .error error) : Foreseen maxRounds error := by
  obtain ⟨axis, outputExtent⟩ := entry
  have has : site.input.extents.has axis := by
    rw [settled.has_iff hosts, AxisMap.has, AxisMap.mem_toList.mp member]
    rfl
  obtain ⟨inputExtent, found⟩ := Option.isSome_iff_exists.mp has
  simp only [Site.checkPlacement, found] at failed
  obtain ⟨beyond, rfl⟩ := Site.ensure_error failed
  have kind : site.stage.kind = .expand := by rw [Stage.kind, operation, Operation.kind]
  rw [Stage.fault, kind]
  exact .exceedsOutput (Nat.lt_of_not_le (of_decide_eq_false beyond))

theorem checkExpand_error (settled : g.Settled) {site : Site} (hosts : g.Hosts site)
    {offset : AxisMap} (operation : site.stage.operation = .expand offset) {error : LoweringError}
    (failed : site.checkExpand offset = .error error) : Foreseen maxRounds error := by
  have kind : site.stage.kind = .expand := by rw [Stage.kind, operation, Operation.kind]
  simp only [Site.checkExpand, bind_eq_error] at failed
  rcases failed with failed | ⟨_, _, failed | ⟨_, _, failed | ⟨_, _, failed⟩⟩⟩
  · obtain ⟨differ, -⟩ := Site.ensure_error failed
    exact absurd (settled.size_eq hosts) (of_decide_eq_false differ)
  · obtain ⟨entry, member, failed⟩ := forM_eq_error failed
    exact settled.checkPlacement_error hosts operation member failed
  · obtain ⟨axis, -, failed⟩ := forM_eq_error failed
    obtain ⟨-, rfl⟩ := Site.ensure_error failed
    rw [Stage.fault, kind]
    exact .foreignOffset
  · obtain ⟨narrow, -⟩ := Site.ensure_error failed
    have shaped := settled.formed.shaped hosts.output
    have widens := settled.widens site hosts
    simp only [Site.Widens, operation, ← Site.exists_widensAt_iff shaped] at widens
    exact absurd widens ((Site.innermostWidened?_eq_none_iff shaped).mp (by simpa using narrow))

theorem checkStageFinal_error (settled : g.Settled) {id : StageId} (member : id ∈ g.stageIds)
    {error : LoweringError} (failed : g.checkStageFinal id = .error error) :
    Foreseen maxRounds error := by
  obtain ⟨site, hosts, rfl⟩ := settled.formed.wired.site_of_mem member
  have decided := settled.decided site.id site.stage hosts.stage
  simp only [checkStageFinal, hosts.site_eq, bind_eq_error, reduceCtorEq, false_or, Except.ok.injEq,
    exists_eq_left'] at failed
  cases operation : site.stage.operation with
  | expand offset =>
    simp only [operation] at failed
    exact settled.checkExpand_error hosts operation failed
  | copy demands mode =>
    have kind : site.stage.kind ≠ .expand := by simp [Stage.kind, operation, Operation.kind]
    simp only [operation, bind_eq_error] at failed
    rcases failed with failed | ⟨_, _, failed⟩
    · exact Site.checkSameExtents_error kind failed
    · obtain ⟨missing, -⟩ := Site.ensure_error failed
      rw [operation] at decided
      exact absurd decided (by simpa [Operation.Decided] using missing)
  | power params =>
    have kind : site.stage.kind = .power := by simp [Stage.kind, operation, Operation.kind]
    simp only [operation, bind_eq_error] at failed
    rcases failed with failed | ⟨_, _, failed⟩
    · exact Site.checkSameExtents_error (by simp [kind]) failed
    · obtain ⟨infinite, rfl⟩ := Site.ensure_error failed
      rw [Stage.fault, kind]
      exact .nonFinite infinite

theorem checkFinal_error (settled : g.Settled) {error : LoweringError}
    (failed : g.checkFinal = .error error) : Foreseen maxRounds error := by
  obtain ⟨order, scheduled, ordered⟩ := settled.formed.wired.exists_schedule
  simp only [checkFinal, scheduled, bind_eq_error, reduceCtorEq, false_or, Except.ok.injEq,
    exists_eq_left'] at failed
  rcases failed with failed | ⟨_, _, failed⟩
  · obtain ⟨id, member, failed⟩ := forM_eq_error failed
    exact settled.checkStageFinal_error ((ordered.mem_iff id).mp member) failed
  · obtain ⟨id, member, failed⟩ := forM_eq_error failed
    have atId := Array.getElem?_eq_getElem (mem_tensorIds.mp member)
    have kept := (settled.resolved atId).layoutViolation?_eq_none (settled.formed.shaped atId).nodup
    simp only [checkTensorLayout, tensor_eq_ok_iff.mpr atId, bind, Except.bind, kept] at failed
    cases failed

end Settled

end Graph

end TensorLowering
