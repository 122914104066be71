import TensorLowering.Proofs.Outcome
import TensorLowering.Proofs.RecordOrder
import TensorLowering.Proofs.ScaleTransfer

/-!
What a graph is lowered to is determined by its network and by the few decisions that it comes with:
the orders of the tensors that no stage writes, the requirements, and the scales.
-/

namespace TensorLowering

open Attempt TensorLowering.Graph

theorem Operation.decideMode_undecided (operation : Operation) (mode : CopyMode) :
    operation.undecided.decideMode mode = operation.decideMode mode := by
  cases operation <;> rfl

namespace Graph

variable {g h k : Graph} {settings : Settings}

theorem complete_iff (wired : g.Wired) : g.validate = .ok () ↔ g.Complete := by
  rw [validate_eq_ok_iff wired]
  constructor
  · refine fun fits => ⟨fun {id tensor} atId role => ?_, fun {id tensor} atId role => ?_⟩
    · have read := fits atId
      rw [if_pos role] at read
      obtain ⟨reader, member⟩ := List.exists_mem_of_ne_nil _ read
      obtain ⟨site, hosts, -, reads⟩ := wired.site_of_mem_consumers atId member
      exact ⟨site, hosts, reads⟩
    · have written := fits atId
      rw [if_neg role] at written
      obtain ⟨writer, produced⟩ := Option.ne_none_iff_exists'.mp written
      obtain ⟨site, hosts, -, writes⟩ := wired.site_of_producer_eq atId produced
      exact ⟨site, hosts, writes⟩
  · intro complete id tensor atId
    split
    · rename_i role
      obtain ⟨site, hosts, rfl⟩ := complete.read atId role
      obtain rfl := Option.some.inj (atId.symm.trans hosts.input)
      exact List.ne_nil_of_mem (hosts.mem_consumers wired)
    · rename_i role
      obtain ⟨site, hosts, rfl⟩ := complete.written atId role
      obtain rfl := Option.some.inj (atId.symm.trans hosts.output)
      simp [hosts.producer_eq wired]

/-! ### What the passes keep -/

section

variable {s : TensorId → Float32}

theorem scale_modifyTensor (before : g.scale = s) {id : TensorId} {change : Tensor → Tensor}
    (same : ∀ tensor, (change tensor).scale = tensor.scale) :
    (g.modifyTensor id change).scale = s := by
  rw [← before]
  funext other
  simp only [scale, tensors_modifyTensor]
  split
  · cases g.tensors[other.index]? <;> simp [same]
  · rfl

theorem keeps_scale_order : Keeps (fun g => g.scale = s) AxisOrder.propagate :=
  AxisOrder.propagate_keeps fun _ _ same _ _ => scale_modifyTensor same fun _ => rfl

theorem keeps_scale_batch : Keeps (fun g => g.scale = s) Batching.determine :=
  Batching.determine_keeps fun _ _ _ same => scale_modifyTensor same fun _ => rfl

theorem keeps_scale_finalize : Keeps (fun g => g.scale = s) Layout.finalize :=
  Layout.finalize_keeps (fun _ _ _ _ same _ _ => scale_modifyTensor same fun _ => rfl)
    fun _ _ _ same => same

end

/-- Every tensor may be split. -/
def AllSplit (g : Graph) : Prop :=
  ∀ {id : TensorId} {tensor : Tensor}, g.tensors[id.index]? = some tensor →
    tensor.batching = .split

theorem keeps_split_finalize : Keeps AllSplit Layout.finalize := by
  refine Layout.finalize_keeps (fun g id _ _ split _ _ => ?_) fun _ _ _ split => split
  intro other tensor atOther
  rw [tensors_modifyTensor] at atOther
  split at atOther
  · obtain ⟨before, atBefore, rfl⟩ := Option.map_eq_some_iff.mp atOther
    have batching := split atBefore
    exact batching
  · exact split atOther

theorem order_modifyTensor_of_ne {id other : TensorId} {change : Tensor → Tensor}
    (apart : other ≠ id) : (g.modifyTensor id change).order other = g.order other := by
  simp [order, tensors_modifyTensor, apart]

/-- An order changes only where a stage writes. -/
theorem keeps_order_unwritten (base : Graph) :
    Keeps (fun g => g.undecided = base.undecided ∧
      ∀ id, base.Unwritten id → g.order id = base.order id) AxisOrder.propagate := by
  refine AxisOrder.propagate_keeps fun g site before hosts _ => ?_
  obtain ⟨same, orders⟩ := before
  have other (id : TensorId) (unwritten : base.Unwritten id) : id ≠ site.outputId :=
    ((SameNetwork.of_undecided_eq same.symm).unwritten unwritten site hosts).symm
  refine ⟨(undecided_modifyTensor fun _ => ?_).trans same, fun id unwritten => ?_⟩
  · rfl
  · exact (order_modifyTensor_of_ne (other id unwritten)).trans (orders id unwritten)

theorem order_of_planned_eq (same : h.planned = g.planned) : h.order = g.order := by
  have plan (k : Graph) : k.planned.order = k.order := by
    funext id
    simp only [order, planned, Array.getElem?_map]
    cases k.tensors[id.index]? <;> rfl
  rw [← plan h, same, plan g]

theorem order_require (r : TensorId → Requirement) : (g.require r).order = g.order := by
  funext id
  simp only [order, tensors_require]
  cases g.tensors[id.index]? <;> rfl

theorem scale_require (r : TensorId → Requirement) : (g.require r).scale = g.scale := by
  funext id
  simp only [scale, tensors_require]
  cases g.tensors[id.index]? <;> rfl

/-! ### What the passes come to -/

/-- The scales of the second graph are those that the first one is given. -/
def ScalesTo (settings : Settings) (g h : Graph) : Prop :=
  if settings.propagateScales then
    Scale.Carries (h.rescale g.scale) settings.inputScales h.stageIds h.scale
  else
    h.scale = g.scale

/-- Orders and scales of the second graph are those that the passes decide on for the first one,
which is the same network. -/
structure Places (settings : Settings) (g h : Graph) : Prop where
  formed : h.WellFormed
  network : SameNetwork g h
  complete : h.Complete
  aligned : h.Aligned
  orders : ∀ id, h.Unwritten id → h.order id = g.order id
  scales : ScalesTo settings g h

/-- So are the requirements. -/
structure Plans (settings : Settings) (g h : Graph) : Prop extends Places settings g h where
  answerable : h.Answerable
  least : IsLeast {r | g.requirement ≤ r ∧ ∀ site, h.Hosts site → site.MetBy r} h.requirement

/-- The decisions that follow from orders and requirements are made. -/
structure Finished (g : Graph) : Prop where
  split : g.AllSplit
  resolved : ∀ {id : TensorId} {tensor : Tensor}, g.tensors[id.index]? = some tensor →
    tensor.Resolved
  chosen : ∀ site, g.Hosts site → site.ModeChosen

theorem ScalesTo.of_scale_eq (scales : ScalesTo settings g h) (network : SameNetwork h k)
    (wired : k.Wired) (complete : k.Complete) (same : k.scale = h.scale) :
    ScalesTo settings g k := by
  unfold ScalesTo at *
  split
  · rename_i propagates
    rw [if_pos propagates] at scales
    rw [same]
    exact scales.of_sameNetwork network wired complete
  · rename_i stays
    rw [if_neg stays] at scales
    exact same.trans scales

namespace Places

theorem of_undecided_eq (places : Places settings g h) (formed : k.WellFormed)
    (same : k.undecided = h.undecided) (orders : k.order = h.order) (aligned : k.Aligned)
    (scales : k.scale = h.scale) : Places settings g k := by
  have network : SameNetwork h k := .of_undecided_eq same.symm
  have complete := places.complete.of_sameNetwork network
  refine ⟨formed, places.network.trans network, complete, aligned, fun id unwritten => ?_,
    places.scales.of_scale_eq network formed.wired complete scales⟩
  rw [orders]
  exact places.orders id (network.symm.unwritten unwritten)

variable (places : Places settings g h) (places' : Places settings g k)

include places places'

theorem sameNetwork : SameNetwork h k := places.network.symm.trans places'.network

theorem order_eq : k.order = h.order := by
  have network := places.sameNetwork places'
  refine places.aligned.order_eq places'.aligned network places.formed.wired fun id unwritten => ?_
  exact (places'.orders id (network.unwritten unwritten)).trans (places.orders id unwritten).symm

theorem metBy_iff {r : TensorId → Requirement} :
    (∀ site, k.Hosts site → site.MetBy r) ↔ ∀ site, h.Hosts site → site.MetBy r :=
  (places.sameNetwork places').metBy_iff (places.order_eq places')

theorem scale_eq : k.scale = h.scale := by
  have network := places.sameNetwork places'
  have scales := places.scales
  have scales' := places'.scales
  unfold ScalesTo at scales scales'
  split at scales
  · rename_i propagates
    rw [if_pos propagates] at scales'
    have carries := scales'.of_sameNetwork network.symm places.formed.wired places.complete
    refine scale_eq_of_known network.size_eq fun id known => ?_
    exact Scale.Carries.unique (g := h.rescale g.scale) scales carries id
      (known.trans_eq (size_rescale h g.scale).symm)
  · rename_i stays
    rw [if_neg stays] at scales'
    exact scales'.trans scales.symm

end Places

namespace Plans

theorem of_planned_eq (plans : Plans settings g h) (formed : k.WellFormed)
    (same : k.planned = h.planned) (scales : k.scale = h.scale) : Plans settings g k := by
  refine ⟨plans.toPlaces.of_undecided_eq formed (undecided_eq_of_planned_eq same)
    (order_of_planned_eq same) (plans.aligned.of_planned_eq same) scales,
    plans.answerable.of_planned_eq same, ?_⟩
  simp only [requirement_of_planned_eq same, metBy_iff_of_planned_eq same]
  exact plans.least

variable (plans : Plans settings g h) (plans' : Plans settings g k)

include plans plans'

theorem requirement_eq : k.requirement = h.requirement := by
  have least := plans'.least
  simp only [plans.toPlaces.metBy_iff plans'.toPlaces] at least
  exact least.unique plans.least

/-- All plans for a graph agree on what the strides follow from. -/
theorem exists_tensor {id : TensorId} {tensor : Tensor}
    (atId : h.tensors[id.index]? = some tensor) :
    ∃ tensor', k.tensors[id.index]? = some tensor' ∧
      tensor'.undecided.unwired = tensor.undecided.unwired ∧ tensor'.order = tensor.order ∧
        tensor'.requirement = tensor.requirement ∧ tensor'.scale = tensor.scale := by
  obtain ⟨tensor', atId', alike⟩ := (plans.sameNetwork plans'.toPlaces).exists_tensor atId
  refine ⟨tensor', atId', alike, ?_, ?_, ?_⟩
  · rw [← order_of_getElem? atId', ← order_of_getElem? atId, plans.order_eq plans'.toPlaces]
  · rw [← requirement_of_getElem? atId', ← requirement_of_getElem? atId,
      plans.requirement_eq plans']
  · rw [← scale_of_getElem? atId', ← scale_of_getElem? atId, plans.scale_eq plans'.toPlaces]

end Plans

/-! ### The modes of the copies -/

/-- The stage with the mode that follows from its tensors. -/
def withMode (g : Graph) (stage : Stage) : Stage :=
  let tensors := (stage.inputs ++ stage.outputs).filterMap fun id => g.tensors[id.index]?
  { stage with operation := stage.operation.decideMode (.choose tensors) }

theorem Finished.stages_eq (finished : g.Finished) (wired : g.Wired) :
    g.undecided.stages.map g.withMode = g.stages := by
  have each (stage : Stage) (member : stage ∈ g.stages) :
      g.withMode stage.undecided = stage := by
    obtain ⟨id, atId⟩ := mem_stages_iff.mp member
    obtain ⟨site, hosts, -, rfl⟩ := wired.exists_site atId
    have tensors : (site.stage.inputs ++ site.stage.outputs).filterMap
        (fun id => g.tensors[id.index]?) = [site.input, site.output] := by
      simp [hosts.inputs, hosts.outputs, hosts.input, hosts.output]
    have chosen := finished.chosen site hosts
    unfold Site.ModeChosen at chosen
    simp only [withMode, Stage.undecided, tensors, Operation.decideMode_undecided, ← chosen]
  calc g.undecided.stages.map g.withMode
      = g.stages.map (g.withMode ∘ Stage.undecided) := by simp [undecided]
    _ = g.stages.map id := Array.map_congr_left each
    _ = g.stages := Array.map_id _

theorem withMode_congr (same : g.tensors.map Tensor.unwired = h.tensors.map Tensor.unwired) :
    g.withMode = h.withMode := by
  have dense (ids : List TensorId) (k : Graph) :
      (ids.filterMap fun id => k.tensors[id.index]?).all Tensor.isDense =
        (ids.filterMap fun id => (k.tensors.map Tensor.unwired)[id.index]?).all Tensor.isDense := by
    have mapped : (ids.filterMap fun id => (k.tensors.map Tensor.unwired)[id.index]?) =
        (ids.filterMap fun id => k.tensors[id.index]?).map Tensor.unwired := by
      simp only [Array.getElem?_map, List.map_filterMap]
    rw [mapped, List.all_map]
    exact congrArg _ (funext fun tensor => tensor.isDense_unwired.symm)
  funext stage
  simp only [withMode, CopyMode.choose]
  rw [dense _ g, dense _ h, same]

/-- All finished plans for a graph agree on a tensor, apart from the handles of stages. -/
theorem Finished.exists_tensor (finished : h.Finished) (finished' : k.Finished)
    (plans : Plans settings g h) (plans' : Plans settings g k) {id : TensorId} {tensor : Tensor}
    (atId : h.tensors[id.index]? = some tensor) :
    ∃ tensor', k.tensors[id.index]? = some tensor' ∧ tensor'.unwired = tensor.unwired := by
  obtain ⟨tensor', atId', given, order, requirement, scale⟩ := plans.exists_tensor plans' atId
  obtain ⟨strides, resolved, atStrides⟩ := finished.resolved atId
  obtain ⟨strides', resolved', atStrides'⟩ := finished'.resolved atId'
  have type : tensor'.type = tensor.type := (congrArg Tensor.type given :)
  have extents : tensor'.extents = tensor.extents := (congrArg Tensor.extents given :)
  have sameStrides : tensor'.strides = tensor.strides := by
    rw [Tensor.resolveStrides_congr type extents order requirement, resolved] at resolved'
    rw [atStrides, atStrides', Except.ok.inj resolved']
  have sameBatching : tensor'.batching = tensor.batching := by
    rw [finished.split atId, finished'.split atId']
  have decided : tensor'.unwired.decisions = tensor.unwired.decisions := by
    change tensor'.decisions = tensor.decisions
    simp only [Tensor.decisions, order, requirement, sameStrides, scale, sameBatching]
  have built : tensor'.unwired.undecided = tensor.unwired.undecided := given
  exact ⟨tensor', atId', Tensor.eq_of_undecided_eq built decided⟩

/-- Finished plans for a graph are rearrangements of each other. -/
theorem Finished.rearranged (finished : h.Finished) (finished' : k.Finished)
    (plans : Plans settings g h) (plans' : Plans settings g k) : Rearranged h k := by
  have network := plans.sameNetwork plans'.toPlaces
  have tensors : h.tensors.map Tensor.unwired = k.tensors.map Tensor.unwired :=
    unwired_eq_of_exists_tensor network.size_eq
      fun {id tensor} atId => finished.exists_tensor finished' plans plans' atId
  refine ⟨tensors, ?_⟩
  have modes := network.stages.map h.withMode
  rw [← Array.toList_map, ← Array.toList_map, finished.stages_eq plans.formed.wired,
    withMode_congr tensors, finished'.stages_eq plans'.formed.wired] at modes
  exact modes

end Graph

end TensorLowering
