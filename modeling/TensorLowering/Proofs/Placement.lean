import TensorLowering.Proofs.Compilation
import TensorLowering.Proofs.Elements
import TensorLowering.Proofs.OrderChains

/-!
An expand stage passes the last check exactly if its input, moved by the offset, lies inside its
output and is smaller along some axis. In a lowered graph every element of the input then has a
place in the output.
-/

namespace TensorLowering

open Attempt

/-- Where along an axis a tensor begins that is placed at the offset. -/
def AxisMap.start (offset : AxisMap) (axis : Axis) : Nat := (offset.get? axis).getD 0

theorem AxisMap.start_eq_zero {offset : AxisMap} {axis : Axis} (unnamed : ¬offset.has axis) :
    offset.start axis = 0 := by
  rw [start, get?_eq_none_iff.mpr unnamed]
  rfl

theorem Tensor.get?_extents_eq_some_iff {tensor : Tensor} {axis : Axis} {value : Nat} :
    tensor.extents.get? axis = some value ↔
      tensor.extents.has axis ∧ tensor.extent axis = value := by
  simp only [AxisMap.has, extent]
  cases tensor.extents.get? axis <;> simp

namespace Graph

namespace Site

variable {site : Site} {offset : AxisMap}

/-- The input, moved by the offset, lies inside the output and is smaller along some axis. -/
structure PlacedAt (site : Site) (offset : AxisMap) : Prop where
  sameAxes : site.SameAxes
  named : ∀ axis, offset.has axis → site.output.extents.has axis
  inside : ∀ axis, site.output.extents.has axis →
    offset.start axis + site.input.extent axis ≤ site.output.extent axis
  wider : ∃ axis, site.output.extents.has axis ∧ site.input.extent axis < site.output.extent axis

/-- Where an element of the input lies in the output. -/
def PlacedAt.shift (placed : site.PlacedAt offset) (place : site.input.Place) :
    site.output.Place where
  along axis := offset.start axis + place.along axis
  inside axis := by
    have before := place.inside axis
    by_cases has : site.output.extents.has axis
    · have fits := placed.inside axis has
      omega
    · have here : offset.start axis = 0 := AxisMap.start_eq_zero fun named =>
        has (placed.named axis named)
      rw [Tensor.extent_eq_one fun given => has ((placed.sameAxes axis).mp given)] at before
      rw [Tensor.extent_eq_one has]
      omega

/-- As many axes on both sides, and none of the output missing in the input: they are the same. -/
theorem sameAxes_iff : site.SameAxes ↔ site.input.extents.size = site.output.extents.size ∧
    ∀ axis, site.output.extents.has axis → site.input.extents.has axis := by
  have covers : (AxisOrder.planar site.output.extents).covers site.input.extents ↔ _ :=
    AxisOrder.covers_iff site.output.extents.nodup_axes
  simp only [AxisOrder.covers, Bool.and_eq_true, decide_eq_true_eq, List.all_eq_true] at covers
  simp only [AxisOrder.rank, AxisOrder.planar, AxisMap.mem_axes] at covers
  rw [SameAxes, eq_comm (a := AxisMap.size _), AxisMap.size, covers]
  exact forall_congr' fun axis => iff_comm

theorem checkPlacement_eq_ok_iff {axis : Axis} {outputExtent : Nat} :
    site.checkPlacement offset (axis, outputExtent) = .ok () ↔ site.input.extents.has axis ∧
      offset.start axis + site.input.extent axis ≤ outputExtent := by
  unfold checkPlacement
  cases found : site.input.extents.get? axis with
  | none => simp [AxisMap.has, found, throw, throwThe, MonadExceptOf.throw]
  | some inputExtent =>
    obtain ⟨has, same⟩ := Tensor.get?_extents_eq_some_iff.mp found
    simp only [found, has, true_and, ensure_eq_ok_iff, decide_eq_true_iff, same, AxisMap.start]

/-- Some axis is found to be widened if the extents of both sides differ along it. -/
theorem isSome_innermostWidened?_iff (shaped : site.output.Shaped) (same : site.SameAxes) :
    (innermostWidened? site.input site.output).isSome ↔
      ∃ axis, site.output.extents.has axis ∧ site.input.extent axis ≠ site.output.extent axis := by
  have widened : (innermostWidened? site.input site.output).isSome ↔
      ∃ axis extent, site.output.extents.get? axis = some extent ∧
        site.input.extents.get? axis ≠ some extent := by
    rw [← exists_widensAt_iff shaped, ← not_iff_not, ← innermostWidened?_eq_none_iff shaped]
    simp
  rw [widened]
  refine exists_congr fun axis => ?_
  simp only [ne_eq, Tensor.get?_extents_eq_some_iff, same axis]
  constructor
  · rintro ⟨_, ⟨has, rfl⟩, differs⟩
    exact ⟨has, fun equal => differs ⟨has, equal⟩⟩
  · rintro ⟨has, differs⟩
    exact ⟨_, ⟨has, rfl⟩, fun equal => differs equal.2⟩

theorem checkExpand_eq_ok_iff (shaped : site.output.Shaped) :
    site.checkExpand offset = .ok () ↔ site.PlacedAt offset := by
  have parts : site.checkExpand offset = .ok () ↔
      site.input.extents.size = site.output.extents.size ∧
      site.output.extents.toList.forM (site.checkPlacement offset) = .ok () ∧
      (offset.axes.forM fun axis =>
        site.ensure (site.output.extents.has axis) (.foreignOffset axis)) = .ok () ∧
      (innermostWidened? site.input site.output).isSome := by
    simp only [checkExpand, bind_eq_ok, ensure_eq_ok_iff, decide_eq_true_iff]
    constructor
    · rintro ⟨_, size, _, fits, _, named, widened⟩
      exact ⟨size, fits, named, widened⟩
    · rintro ⟨size, fits, named, widened⟩
      exact ⟨(), size, (), fits, (), named, widened⟩
  rw [parts, forM_eq_ok_iff, forM_eq_ok_iff]
  simp only [Prod.forall, AxisMap.mem_toList, checkPlacement_eq_ok_iff, ensure_eq_ok_iff,
    AxisMap.mem_axes, Tensor.get?_extents_eq_some_iff]
  constructor
  · rintro ⟨size, fits, named, widened⟩
    have inside (axis : Axis) (has : site.output.extents.has axis) := fits axis _ ⟨has, rfl⟩
    have same := sameAxes_iff.mpr ⟨size, fun axis has => (inside axis has).1⟩
    obtain ⟨axis, has, differs⟩ := (isSome_innermostWidened?_iff shaped same).mp widened
    have bound := (inside axis has).2
    exact ⟨same, named, fun axis has => (inside axis has).2, axis, has, by omega⟩
  · intro placed
    obtain ⟨size, subset⟩ := sameAxes_iff.mp placed.sameAxes
    obtain ⟨axis, has, less⟩ := placed.wider
    refine ⟨size, ?_, placed.named, ?_⟩
    · rintro axis _ ⟨has, rfl⟩
      exact ⟨subset axis has, placed.inside axis has⟩
    · exact (isSome_innermostWidened?_iff shaped placed.sameAxes).mpr ⟨axis, has, less.ne⟩

end Site

variable {g : Graph}

theorem Hosts.checkStageFinal_expand_iff (formed : g.WellFormed) {site : Site}
    (hosts : g.Hosts site) {offset : AxisMap} (operation : site.stage.operation = .expand offset) :
    g.checkStageFinal site.id = .ok () ↔ site.PlacedAt offset := by
  rw [← Site.checkExpand_eq_ok_iff (formed.shaped hosts.output)]
  simp only [checkStageFinal, hosts.site_eq, bind_eq_ok, Except.ok.injEq, exists_eq_left', operation]

/-- The last check of an expand stage is passed exactly if the input is placed inside the output. In a
lowered graph it is, so that every element of the input, moved by the offset, is one of the output. -/
theorem Reachable.placement_exact (reachable : g.Reachable) :
    (∀ site offset, g.Hosts site → site.stage.operation = .expand offset →
      (g.checkStageFinal site.id = .ok () ↔ site.PlacedAt offset)) ∧
    ∀ settings compiled after, compile settings g = .ok compiled after →
      ∀ site offset, after.Hosts site → site.stage.operation = .expand offset →
        ∀ place : site.input.Place, ∃ place' : site.output.Place,
          ∀ axis, place'.along axis = offset.start axis + place.along axis := by
  refine ⟨fun site offset hosts operation =>
    hosts.checkStageFinal_expand_iff reachable.wellFormed operation, ?_⟩
  intro settings compiled after succeeded site offset hosts operation place
  obtain ⟨ordered, r, lowered⟩ := reachable.wellFormed.exists_lowered succeeded
  have checked := ((checkFinal_eq_ok_iff lowered.formed.wired).mp lowered.checked).1 site hosts
  have placed := (hosts.checkStageFinal_expand_iff lowered.formed operation).mp checked
  exact ⟨placed.shift place, fun axis => rfl⟩

/-- A plane that is placed in the middle of a wider one, two columns in. -/
def framedPlane : Graph where
  name := "plane"
  tensors := #[
    { Tensor.fresh "given" .u8 { w := some 3, h := some 2 } .input with consumers := [⟨0⟩] },
    { Tensor.fresh "framed" .u8 { w := some 6, h := some 2 } .intermediate with
      producer := some ⟨0⟩ }]
  stages := #[⟨"frame", none, [⟨0⟩], [⟨1⟩], .expand { w := some 2 }⟩]

theorem reachable_framedPlane : framedPlane.Reachable := by
  let given := ((empty "plane").addTensor "given" .u8 { w := some 3, h := some 2 } .input).2
  let framed := (given.addTensor "framed" .u8 { w := some 6, h := some 2 } .intermediate).2
  have tensors : framed.Reachable :=
    ((Reachable.empty "plane").addTensor _ _ _ (by decide)).addTensor _ _ _ (by decide)
  have frames : framed.addExpand "frame" none [⟨0⟩] [⟨1⟩] { w := some 2 } =
      .ok (⟨0⟩, framedPlane) := by
    decide +kernel
  exact tensors.addExpand frames

/-- The plane lies in columns two to four of the wider one. -/
theorem placement_exact_framedPlane :
    ∃ compiled after site, compile {} framedPlane = .ok compiled after ∧ after.Hosts site ∧
      site.stage.operation = .expand { w := some 2 } ∧
      ∀ place : site.input.Place, ∃ place' : site.output.Place,
        place'.along .w = 2 + place.along .w ∧ place'.along .h = place.along .h := by
  have kept : ((compile {}).result? framedPlane).bind (fun found => found.2.stages[0]?) =
      some framedPlane.stages[0] := by
    decide +kernel
  obtain ⟨⟨compiled, after⟩, ran, atZero⟩ := Option.bind_eq_some_iff.mp kept
  have succeeded := result?_eq_some_iff.mp ran
  obtain ⟨_, _, lowered⟩ := reachable_framedPlane.wellFormed.exists_lowered succeeded
  have atId : after.stages[(⟨0⟩ : StageId).index]? = some framedPlane.stages[0] := atZero
  obtain ⟨site, hosts, -, same⟩ := lowered.formed.wired.exists_site atId
  have operation : site.stage.operation = .expand { w := some 2 } := same ▸ rfl
  refine ⟨compiled, after, site, succeeded, hosts, operation, fun place => ?_⟩
  obtain ⟨place', shifted⟩ := reachable_framedPlane.placement_exact.2 {} compiled after succeeded
    site { w := some 2 } hosts operation place
  exact ⟨place', shifted .w, (shifted .h).trans (Nat.zero_add _)⟩

end Graph

end TensorLowering
