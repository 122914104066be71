import TensorLowering.Compile
import TensorLowering.Proofs.Wiring

/-!
Each pass changes a graph in one way only, so a property of the graph that this one change keeps is
kept by the pass, whether it succeeds or fails.
-/

namespace TensorLowering

open Attempt

variable {kept : Graph → Prop}

theorem Scale.set_keeps
    (scaled : ∀ g id scale, kept g →
      kept (g.modifyTensor id fun tensor => { tensor with scale := scale }))
    (id : TensorId) (scale : Float32) : Keeps kept (Scale.set id scale) := by
  intro g before
  simp only [Scale.set, ensures_bind, ensures_ask, ensures_ite, ensures_pure, ensures_modify]
  exact ⟨fun tensor _ => ⟨fun _ => before, fun _ => scaled g id scale before⟩, fun _ _ => before⟩

theorem Scale.settle_keeps
    (scaled : ∀ g id scale, kept g →
      kept (g.modifyTensor id fun tensor => { tensor with scale := scale }))
    (stage : StageId) (current : TensorMap Float32) (entry : TensorId × Float32) :
    Keeps kept (Scale.settle stage current entry) := by
  intro g before
  unfold Scale.settle
  split
  · simp only [Scale.adopt, ensures_bind, ensures_ask, ensures_ite, ensures_pure, ensures_throw]
    refine ⟨fun _ => ⟨fun tensor _ => ⟨fun _ => ?_, fun _ => ⟨fun _ _ => before, fun _ _ => before⟩⟩,
      fun _ _ => before⟩, fun _ => before⟩
    exact Scale.set_keeps scaled entry.1 entry.2 g before
  · exact Scale.set_keeps scaled entry.1 entry.2 g before

theorem Scale.propagateThrough_keeps
    (scaled : ∀ g id scale, kept g →
      kept (g.modifyTensor id fun tensor => { tensor with scale := scale }))
    (inputScales : TensorMap Float32) (id : StageId) :
    Keeps kept (Scale.propagateThrough inputScales id) := by
  intro g before
  simp only [Scale.propagateThrough, ensures_bind, ensures_ask, ensures_ite, ensures_get]
  refine ⟨fun stage _ => ⟨fun _ => ⟨fun scale _ => ?_, fun _ _ => before⟩,
    fun _ => ⟨fun current _ => ⟨fun answer _ => ?_, fun _ _ => before⟩, fun _ _ => before⟩⟩,
    fun _ _ => before⟩
  · exact keeps_sweep (fun output _ => Scale.set_keeps scaled output scale) g before
  · exact keeps_sweep (fun entry _ => Scale.settle_keeps scaled id current entry) g before

theorem Scale.propagate_keeps
    (scaled : ∀ g id scale, kept g →
      kept (g.modifyTensor id fun tensor => { tensor with scale := scale }))
    (inputScales : TensorMap Float32) : Keeps kept (Scale.propagate inputScales) := by
  intro g before
  simp only [Scale.propagate, ensures_bind, ensures_ask, ensures_get, ensures_pure]
  refine (keeps_sweep (fun id _ => Scale.set_keeps scaled id _) g before).mono ?_ fun _ _ => id
  intro started now here
  have carried (order : List StageId) :
      Keeps kept (sweep (Scale.propagateThrough inputScales) order) :=
    keeps_sweep fun id _ => Scale.propagateThrough_keeps scaled inputScales id
  exact ⟨fun order _ => (carried order now here).mono (fun _ _ => id) fun _ _ => id,
    fun _ _ => here⟩

/-- The output of a stage takes over the order of the input, and only an order of its own axes. -/
theorem AxisOrder.propagate_keeps
    (adopted : ∀ (g : Graph) (site : Graph.Site), kept g → g.Hosts site →
      site.input.order.covers site.output.extents →
      kept (g.modifyTensor site.outputId fun tensor => { tensor with order := site.input.order })) :
    Keeps kept AxisOrder.propagate := by
  have through (id : StageId) : Keeps kept (AxisOrder.propagateThrough id) := by
    intro g before
    simp only [AxisOrder.propagateThrough, ensures_bind, ensures_ask]
    refine ⟨fun answer answered => ?_, fun _ _ => before⟩
    simp only [Graph.orderAnswer, bind_eq_ok, Graph.site_eq_ok_iff, pure, Except.pure,
      Except.ok.injEq] at answered
    obtain ⟨site, ⟨-, hosts⟩, rfl⟩ := answered
    change Ensures (sweep AxisOrder.adopt [(site.outputId, site.input.order)]) g _ _
    rw [sweep_singleton]
    simp only [AxisOrder.adopt, ensures_bind, ensures_ask, ensures_ite, ensures_pure,
      ensures_modify, ensures_throw, Graph.tensor_eq_ok_iff]
    refine ⟨fun tensor atId => ⟨fun covers => ⟨fun _ => before, fun _ => ?_⟩, fun _ => before⟩,
      fun _ _ => before⟩
    obtain rfl := Option.some.inj (hosts.output.symm.trans atId)
    exact adopted g site before hosts covers
  intro g before
  simp only [AxisOrder.propagate, ensures_bind, ensures_ask]
  exact ⟨fun order _ => keeps_sweep (fun id _ => through id) g before, fun _ _ => before⟩

/-- Negotiating is running a round and forgetting what it noted. -/
theorem Negotiation.ensures_negotiate {g : Graph} {done : Nat → Graph → Prop}
    {failed : LoweringError → Graph → Prop} :
    negotiate.Ensures g done failed ↔
      runRound.Ensures ⟨g, []⟩ (fun count round => done count round.graph)
        fun error round => failed error round.graph := by
  unfold Ensures negotiate
  cases runRound ⟨g, []⟩ <;> rfl

/-- A tensor's requirement grows by a demand that keeps to the tensor's axes. -/
theorem Negotiation.negotiate_keeps
    (committed : ∀ (g : Graph) (id : TensorId) (tensor : Tensor) (demand merged : Requirement),
      kept g → g.tensors[id.index]? = some tensor →
      (∀ position, demand.get position ≠ .any → position < tensor.order.rank) →
      tensor.requirement.merge demand = (merged, .ok true) →
      kept (g.modifyTensor id fun tensor => { tensor with requirement := merged })) :
    Keeps kept Negotiation.negotiate := by
  have commit (stage : String) (id : TensorId) (demand : Requirement) :
      Keeps (fun round => kept round.graph) (Negotiation.commit stage id demand) := by
    intro round before
    simp only [Negotiation.commit, ensures_bind, ensures_ask, Graph.tensor_eq_ok_iff]
    refine ⟨fun tensor atId => ?_, fun _ _ => before⟩
    split
    · exact before
    · rename_i fits
      split
      · exact before
      · rename_i merged joined
        refine committed _ id tensor demand merged before atId (fun position asks => ?_) joined
        have member := Requirement.mem_concrete.mpr ⟨rfl, asks⟩
        simpa using List.find?_eq_none.mp fits _ member
      · split
        · exact before
        · exact before
  have consult (id : StageId) :
      Keeps (fun round => kept round.graph) (Negotiation.consult id) := by
    intro round before
    simp only [Negotiation.consult, ensures_bind, ensures_ask]
    exact ⟨fun answer _ => ⟨fun stage _ =>
      keeps_sweep (fun entry _ => commit stage.name entry.1 entry.2) round before,
      fun _ _ => before⟩, fun _ _ => before⟩
  have round : Keeps (fun round => kept round.graph) Negotiation.runRound := by
    intro round before
    simp only [Negotiation.runRound, ensures_bind, ensures_ask]
    exact ⟨fun order _ => keeps_sweep (fun id _ => consult id) round before, fun _ _ => before⟩
  intro g before
  exact Negotiation.ensures_negotiate.mpr (round ⟨g, []⟩ before)

theorem Batching.determine_keeps
    (batched : ∀ g id batching, kept g →
      kept (g.modifyTensor id fun tensor => { tensor with batching := batching })) :
    Keeps kept Batching.determine := by
  have set (id : TensorId) (batching : Batching) : Keeps kept (Batching.set id batching) := by
    intro g before
    simp only [Batching.set, ensures_bind, ensures_ask, ensures_ite, ensures_pure, ensures_modify]
    exact ⟨fun tensor _ => ⟨fun _ => before, fun _ => batched g id batching before⟩,
      fun _ _ => before⟩
  intro g before
  simp only [Batching.determine, ensures_bind, ensures_ask, ensures_get]
  exact ⟨fun wholes _ => keeps_sweep (fun id _ => set id _) g before, fun _ _ => before⟩

theorem Layout.resolve_keeps
    (resolved : ∀ (g : Graph) (id : TensorId) (tensor : Tensor) (strides : AxisMap), kept g →
      g.tensors[id.index]? = some tensor → tensor.resolveStrides = .ok strides →
      kept (g.modifyTensor id fun tensor => { tensor with strides := some strides }))
    (id : TensorId) : Keeps kept (Layout.resolve id) := by
  intro g before
  simp only [Layout.resolve, ensures_bind, ensures_ask, Graph.tensor_eq_ok_iff]
  refine ⟨fun tensor atId => ?_, fun _ _ => before⟩
  split
  · exact before
  · rename_i strides chosen
    simp only [ensures_ite, ensures_pure, ensures_bind, ensures_modify]
    exact ⟨fun _ => before, fun _ => resolved g id tensor strides before atId chosen⟩

theorem Layout.finalizeStage_keeps
    (recorded : ∀ (g : Graph) (id : StageId) (mode : CopyMode), kept g →
      kept (g.modifyStage id fun stage =>
        { stage with operation := stage.operation.decideMode mode }))
    (id : StageId) : Keeps kept (Layout.finalizeStage id) := by
  intro g before
  simp only [Layout.finalizeStage, ensures_bind, ensures_ask, ensures_modify, ensures_pure]
  exact ⟨fun stage _ => ⟨fun _ _ => ⟨fun tensors _ => recorded g id _ before,
    fun _ _ => before⟩, fun _ _ => before⟩, fun _ _ => before⟩

theorem Layout.finalize_keeps
    (resolved : ∀ (g : Graph) (id : TensorId) (tensor : Tensor) (strides : AxisMap), kept g →
      g.tensors[id.index]? = some tensor → tensor.resolveStrides = .ok strides →
      kept (g.modifyTensor id fun tensor => { tensor with strides := some strides }))
    (recorded : ∀ (g : Graph) (id : StageId) (mode : CopyMode), kept g →
      kept (g.modifyStage id fun stage =>
        { stage with operation := stage.operation.decideMode mode })) :
    Keeps kept Layout.finalize := by
  intro g before
  simp only [Layout.finalize, ensures_bind, ensures_ask, ensures_get, ensures_pure]
  refine (keeps_sweep (fun id _ => Layout.resolve_keeps resolved id) g before).mono ?_
    fun _ _ => id
  intro _ now here
  have recording (order : List StageId) : Keeps kept (sweep Layout.finalizeStage order) :=
    keeps_sweep fun id _ => Layout.finalizeStage_keeps recorded id
  exact ⟨fun order _ => (recording order now here).mono (fun _ _ => id) fun _ _ => id,
    fun _ _ => here⟩

end TensorLowering
