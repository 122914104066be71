import TensorLowering.Proofs.Constraints

namespace TensorLowering

open Attempt TensorLowering.Graph

namespace Graph

variable {g : Graph}

theorem requirement_modifyTensor {id : TensorId} {change : Tensor → Tensor}
    (same : ∀ tensor, (change tensor).requirement = tensor.requirement) :
    (g.modifyTensor id change).requirement = g.requirement := by
  funext other
  rw [requirement, requirement, tensors_modifyTensor]
  cases g.tensors[other.index]? with
  | none => simp
  | some tensor => by_cases here : other = id <;> simp [here, same]

/-- The stages have handed the order of their input on to their output. -/
def AlignedThrough (g : Graph) (visited : List StageId) : Prop :=
  ∀ site, g.Hosts site → site.id ∈ visited → site.output.order = site.input.order

/-- A stage that hands on an order leaves those before it alone: they neither read nor write what
it writes. -/
theorem AlignedThrough.modifyTensor {visited later order : List StageId} {site : Site}
    (aligned : g.AlignedThrough visited) (wired : g.Wired) (ordered : g.Ordered order)
    (split : order = visited ++ site.id :: later) (hosts : g.Hosts site) :
    (g.modifyTensor site.outputId fun tensor =>
      { tensor with order := site.input.order }).AlignedThrough (visited ++ [site.id]) := by
  intro other changed member
  obtain ⟨before, hosts', rfl⟩ := hosts_modifyTensor_iff.mp changed
  obtain ⟨fresh, -, behind⟩ := ordered.apart split
  rcases List.mem_append.mp member with old | last
  · have apart : before.inputId ≠ site.outputId := fun same =>
      behind before.id old (ordered.mem_of_feeds split
        ((hosts.feeds_iff_inputId hosts' wired).mpr same))
    have apart' : before.outputId ≠ site.outputId := fun same =>
      fresh (hosts'.id_eq_of_outputId_eq hosts wired same ▸ old)
    simpa only [Site.view, apart, apart', if_false] using aligned before hosts' old
  · obtain rfl := hosts'.unique hosts (List.mem_singleton.mp last)
    simp only [Site.view, hosts.inputId_ne_outputId wired, if_true, if_false]

end Graph

namespace AxisOrder

variable {g : Graph}

/-- A stage hands the order of its input on to its output, which may be in that order already. -/
theorem propagateThrough_ensures {site : Site} (hosts : g.Hosts site) :
    (propagateThrough site.id).Ensures g
      (fun count after => (site.output.order = site.input.order ∧ count = 0 ∧ after = g) ∨
        (site.input.order.covers site.output.extents ∧ site.output.order ≠ site.input.order ∧
          count = 1 ∧ after = g.modifyTensor site.outputId fun tensor =>
            { tensor with order := site.input.order }))
      fun error after => ¬site.input.order.covers site.output.extents ∧
        error = site.output.fault (.orderDoesNotCover site.input.order site.output.extents) ∧
          after = g := by
  have answered : g.orderAnswer site.id =
      .ok (TensorMap.empty.insert site.outputId site.input.order) := by
    simp only [orderAnswer, hosts.site_eq, bind, Except.bind]
    rfl
  refine .ask_bind answered ?_
  change Ensures (sweep adopt [(site.outputId, site.input.order)]) g _ _
  rw [sweep_singleton]
  refine .ask_bind (tensor_eq_ok_iff.mpr hosts.output) ?_
  simp only [ensures_bind, ensures_ite, ensures_pure, ensures_modify, ensures_throw, and_true]
  exact ⟨fun covers => ⟨fun already => .inl already, fun differs => .inr ⟨covers, differs⟩⟩,
    fun uncovered => uncovered⟩

/-- Carrying the orders through aligns every stage. It fails only at a stage whose input is in an
order that does not cover the output. -/
theorem propagate_ensures (formed : g.WellFormed) :
    propagate.Ensures g
      (fun _ after => after.WellFormed ∧ after.undecided = g.undecided ∧ after.Aligned)
      fun error after => after.WellFormed ∧ after.undecided = g.undecided ∧
        ∃ site, after.Hosts site ∧ ¬site.input.order.covers site.output.extents ∧
          error = site.output.fault (.orderDoesNotCover site.input.order site.output.extents) := by
  obtain ⟨order, scheduled, ordered⟩ := formed.wired.exists_schedule
  refine .ask_bind scheduled ?_
  refine (Ensures.sweep (fun visited _ now => now.WellFormed ∧ now.undecided = g.undecided ∧
    now.AlignedThrough visited) ?_ ?_).mono ?_ fun _ _ => id
  · exact ⟨formed, rfl, by simp [AlignedThrough]⟩
  · intro visited id later count now split reached
    obtain ⟨formed', same, aligned⟩ := reached
    have ordered' := ordered.of_undecided_eq same
    have member : id ∈ now.stageIds := (ordered'.mem_iff id).mp (by simp [split])
    obtain ⟨site, hosts, rfl⟩ := formed'.wired.site_of_mem member
    refine (propagateThrough_ensures hosts).mono ?_ ?_
    swap
    · rintro error after ⟨uncovered, rfl, rfl⟩
      exact ⟨formed', same, site, hosts, uncovered, rfl⟩
    intro _ after handed
    rcases handed with ⟨already, -, rfl⟩ | ⟨covers, -, -, rfl⟩
    · refine ⟨formed', same, fun other hosts' member' => ?_⟩
      rcases List.mem_append.mp member' with old | last
      · exact aligned other hosts' old
      · obtain rfl := hosts'.unique hosts (List.mem_singleton.mp last)
        exact already
    · have formed'' : (now.modifyTensor site.outputId fun tensor =>
          { tensor with order := site.input.order }).WellFormed := by
        refine formed'.modifyTensor (fun _ => rfl) fun tensor atId => ?_
        rw [hosts.output] at atId
        cases atId
        exact (formed'.shaped hosts.output).with_order (formed'.shaped hosts.input).nodup covers
      refine ⟨formed'', ?_, aligned.modifyTensor formed'.wired ordered' split hosts⟩
      refine (undecided_modifyTensor fun _ => ?_).trans same
      rfl
  · intro count after reached
    obtain ⟨formed', same, aligned⟩ := reached
    refine ⟨formed', same, fun site hosts => ?_⟩
    have ordered' := ordered.of_undecided_eq same
    exact aligned site hosts ((ordered'.mem_iff site.id).mpr hosts.mem_stageIds)

theorem requirement_propagate (r : TensorId → Requirement) :
    Keeps (fun g => g.requirement = r) propagate := by
  refine propagate_keeps fun _ _ same _ _ => ?_
  refine (requirement_modifyTensor fun _ => ?_).trans same
  rfl

end AxisOrder

end TensorLowering
