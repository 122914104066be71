import TensorLowering.Proofs.Orders

/-!
On a well-formed graph few things can go wrong in a pass: no handle is unknown, no stage lacks its
tensors, and the schedule exists.
-/

namespace TensorLowering

open Attempt

namespace Graph

variable {g : Graph}

theorem checkStage_eq_ok (wired : g.Wired) {id : StageId} (member : id ∈ g.stageIds) :
    g.checkStage id = .ok ⟨⟩ := by
  obtain ⟨site, hosts, rfl⟩ := wired.site_of_mem member
  have arity : site.stage.checkArity = .ok () :=
    Stage.checkArity_eq_ok_iff.mpr (wired.arity hosts.stage)
  have input : g.checkInput site.id site.stage site.inputId = .ok ⟨⟩ := by
    simp only [checkInput, tensor_eq_ok_iff.mpr hosts.input, bind, Except.bind,
      hosts.mem_consumers wired, if_true]
    rfl
  have output : g.checkOutput site.id site.stage site.outputId = .ok ⟨⟩ := by
    simp only [checkOutput, tensor_eq_ok_iff.mpr hosts.output, bind, Except.bind,
      hosts.producer_eq wired, if_true]
    rfl
  simp only [checkStage, stage_eq_ok_iff.mpr hosts.stage, arity, hosts.inputs, hosts.outputs,
    List.forM, input, output, bind, Except.bind]
  rfl

/-- Where the wiring agrees from both sides, only the role of a tensor is left to check. -/
theorem checkTensor_eq (wired : g.Wired) {id : TensorId} {tensor : Tensor}
    (atId : g.tensors[id.index]? = some tensor) : g.checkTensor id = g.checkRole tensor := by
  have producers : tensor.producer.toList.forM (g.checkProducer id tensor) = .ok ⟨⟩ := by
    refine forM_eq_ok_iff.mpr fun writer written => ?_
    obtain ⟨stage, atWriter, listed⟩ := (wired.writer atId).mp (by simpa using written)
    simp only [checkProducer, stage_eq_ok_iff.mpr atWriter, bind, Except.bind, listed, if_true]
    rfl
  have consumers : tensor.consumers.forM (g.checkConsumer id tensor) = .ok ⟨⟩ := by
    refine forM_eq_ok_iff.mpr fun reader read => ?_
    obtain ⟨stage, atReader, listed⟩ := (wired.readers atId).mp read
    simp only [checkConsumer, stage_eq_ok_iff.mpr atReader, bind, Except.bind, listed, if_true]
    rfl
  simp only [checkTensor, tensor_eq_ok_iff.mpr atId, producers, consumers, bind, Except.bind]

theorem checkTensor_eq_ok_iff (wired : g.Wired) {id : TensorId} {tensor : Tensor}
    (atId : g.tensors[id.index]? = some tensor) :
    g.checkTensor id = .ok () ↔
      if tensor.role = .input then tensor.consumers ≠ [] else tensor.producer ≠ none := by
  rw [checkTensor_eq wired atId]
  have given := wired.given atId
  cases role : tensor.role <;> cases written : tensor.producer <;>
    cases read : tensor.consumers <;>
      simp_all [checkRole, pure, Except.pure, throw, throwThe, MonadExceptOf.throw]

/-- A tensor that does not fit its role is written by nobody. If it is no network input and somebody
reads it, its writer is missed; otherwise it is left over. -/
theorem checkTensor_eq_error_iff (wired : g.Wired) {id : TensorId} {tensor : Tensor}
    (atId : g.tensors[id.index]? = some tensor) {error : LoweringError} :
    g.checkTensor id = .error error ↔
      (¬if tensor.role = .input then tensor.consumers ≠ [] else tensor.producer ≠ none) ∧
        error = .contract (if tensor.role ≠ .input ∧ tensor.consumers ≠ [] then
          .unproduced tensor.name else .orphan tensor.name) := by
  rw [checkTensor_eq wired atId, eq_comm (a := error)]
  have given := wired.given atId
  cases role : tensor.role <;> cases written : tensor.producer <;>
    cases read : tensor.consumers <;>
      simp_all [checkRole, pure, Except.pure, throw, throwThe, MonadExceptOf.throw]

/-- Where the wiring agrees from both sides, only the tensors are left to check. -/
theorem validate_eq (wired : g.Wired) : g.validate = g.tensorIds.forM g.checkTensor := by
  obtain ⟨order, scheduled, _⟩ := wired.exists_schedule
  have stages : g.stageIds.forM g.checkStage = .ok ⟨⟩ :=
    forM_eq_ok_iff.mpr fun id member => checkStage_eq_ok wired member
  simp only [validate, stages, scheduled, bind, Except.bind]
  cases g.tensorIds.forM g.checkTensor <;> simp [pure, Except.pure]

/-- The structure of a well-wired graph passes its check if every tensor fits its role. -/
theorem validate_eq_ok_iff (wired : g.Wired) :
    g.validate = .ok () ↔ ∀ {id : TensorId} {tensor : Tensor}, g.tensors[id.index]? = some tensor →
      if tensor.role = .input then tensor.consumers ≠ [] else tensor.producer ≠ none := by
  rw [validate_eq wired, forM_eq_ok_iff]
  constructor
  · intro all id tensor atId
    have known := mem_tensorIds.mpr (Array.getElem?_eq_some_iff.mp atId).1
    exact (checkTensor_eq_ok_iff wired atId).mp (all id known)
  · intro all id member
    have atId := Array.getElem?_eq_getElem (mem_tensorIds.mp member)
    exact (checkTensor_eq_ok_iff wired atId).mpr (all atId)

theorem validate_error (wired : g.Wired) {error : LoweringError}
    (failed : g.validate = .error error) :
    ∃ name, error = .contract (.orphan name) ∨ error = .contract (.unproduced name) := by
  rw [validate_eq wired] at failed
  obtain ⟨id, member, failed⟩ := forM_eq_error failed
  have atId := Array.getElem?_eq_getElem (mem_tensorIds.mp member)
  obtain ⟨-, rfl⟩ := (checkTensor_eq_error_iff wired atId).mp failed
  split
  · exact ⟨_, .inr rfl⟩
  · exact ⟨_, .inl rfl⟩

end Graph

/-- A tensor that is neither given nor written has the scale that it was made with. -/
def Graph.Idle (g : Graph) : Prop :=
  ∀ (id : TensorId) (tensor : Tensor), g.tensors[id.index]? = some tensor → tensor.role ≠ .input →
    tensor.producer = none → tensor.scale = 1.0

namespace Scale

open TensorLowering.Graph

/-- A stage asks for a scale that its input cannot take. -/
def Mismatch (error : LoweringError) : Prop :=
  ∃ tensor stage current requested,
    error = .negotiation (.scaleMismatch tensor stage current requested)

/-- Only scales differ, and only those of tensors that are given or written. -/
structure Rescaled (g after : Graph) : Prop where
  undecided : after.undecided = g.undecided
  idle : g.Idle → after.Idle

theorem Rescaled.refl (g : Graph) : Rescaled g g := ⟨rfl, fun idle => idle⟩

theorem Rescaled.trans {g now after : Graph} (first : Rescaled g now) (second : Rescaled now after) :
    Rescaled g after :=
  ⟨second.undecided.trans first.undecided, fun idle => second.idle (first.idle idle)⟩

section

variable {g now : Graph} {id : TensorId} {tensor : Tensor} {site : Site}

theorem Rescaled.set (rescaled : Rescaled g now) (atId : g.tensors[id.index]? = some tensor)
    (driven : tensor.role = .input ∨ tensor.producer ≠ none) (scale : Float32) :
    (set id scale).Ensures now (fun _ => Rescaled g) fun _ _ => False := by
  obtain ⟨tensor', atId', alike⟩ := tensor_of_undecided_eq rescaled.undecided.symm atId
  have role : tensor'.role = tensor.role := (congrArg Tensor.role alike :)
  have producer : tensor'.producer = tensor.producer := (congrArg Tensor.producer alike :)
  refine .ask_bind (tensor_eq_ok_iff.mpr atId') ?_
  simp only [ensures_bind, ensures_ite, ensures_pure, ensures_modify]
  refine ⟨fun _ => rescaled, fun _ => ⟨(undecided_modifyTensor fun _ => ?_).trans rescaled.undecided,
    fun idle other found atOther unread unwritten => ?_⟩⟩
  · rfl
  · rw [tensors_modifyTensor] at atOther
    split at atOther
    · rename_i here
      rw [here, atId'] at atOther
      cases atOther
      exact (driven.elim (fun input => unread (role.trans input))
        fun writes => writes (producer.symm.trans unwritten)).elim
    · exact rescaled.idle idle other found atOther unread unwritten

/-- Only a network input takes another scale at the request of a stage. -/
theorem Rescaled.settle (rescaled : Rescaled g now) (wired : g.Wired) (hosts : g.Hosts site)
    (scale : Float32) {entry : TensorId × Float32}
    (own : entry.1 = site.inputId ∨ entry.1 = site.outputId) :
    (settle site.id (TensorMap.empty.insert site.inputId scale) entry).Ensures now
      (fun _ => Rescaled g) fun error after => Mismatch error ∧ Rescaled g after := by
  obtain ⟨id, value⟩ := entry
  have known : site.id ∈ now.stageIds := by
    rw [mem_stageIds, size_stages_of_undecided_eq rescaled.undecided]
    exact mem_stageIds.mp hosts.mem_stageIds
  have atStage := Array.getElem?_eq_getElem (mem_stageIds.mp known)
  rcases own with rfl | rfl
  · have asked : (TensorMap.empty.insert site.inputId scale).get? site.inputId = some scale := by
      simp [TensorMap.get?_insert]
    obtain ⟨input, atInput, alike⟩ := tensor_of_undecided_eq rescaled.undecided.symm hosts.input
    have role : input.role = site.input.role := (congrArg Tensor.role alike :)
    simp only [Scale.settle, asked]
    rw [ensures_ite]
    refine ⟨fun _ => .ask_bind (tensor_eq_ok_iff.mpr atInput) ?_, fun _ => rescaled⟩
    rw [ensures_ite, ensures_bind]
    refine ⟨fun free => ?_, fun _ => .ask_bind (stage_eq_ok_iff.mpr atStage) ?_⟩
    · exact (rescaled.set hosts.input (.inl (role ▸ free.1)) value).mono (fun _ _ => id)
        fun _ _ => False.elim
    · exact ⟨⟨_, _, _, _, rfl⟩, rescaled⟩
  · have absent : (TensorMap.empty.insert site.inputId scale).get? site.outputId = none := by
      simp [TensorMap.get?_insert, (hosts.inputId_ne_outputId wired).symm]
    simp only [Scale.settle, absent]
    refine (rescaled.set hosts.output (.inr ?_) value).mono (fun _ _ => id) fun _ _ => False.elim
    simp [hosts.producer_eq wired]

end

/-- A stage answers with one scale, for its output and, unless it keeps quiet about it, for its
input. -/
theorem eq_of_mem_answer {inputId outputId : TensorId} {quiet : Prop} [Decidable quiet]
    {value : Float32} {entry : TensorId × Float32}
    (member : entry ∈ ((if quiet then .empty else TensorMap.empty.insert inputId value).insert
      outputId value).toList) : entry = (inputId, value) ∨ entry = (outputId, value) := by
  rcases mem_insertEntry member with output | other
  · exact .inr output
  · split at other
    · cases other
    · exact .inl (by simpa [TensorMap.empty] using mem_insertEntry other)

theorem scaleAnswer_eq_ok {g : Graph} {site : Site} (hosts : g.Hosts site)
    (executed : site.stage.category ≠ .special) (scales : TensorMap Float32) (step : ScaleStep) :
    ∃ answer, g.scaleAnswer site.id scales step = .ok answer ∧
      ∀ entry ∈ answer.toList, entry.1 = site.inputId ∨ entry.1 = site.outputId := by
  cases operation : site.stage.operation with
  | expand offset =>
    exact absurd (by simp [Stage.category, Stage.kind, operation, Operation.kind, Kind.category])
      executed
  | copy demands mode =>
    refine ⟨_, by simp only [Graph.scaleAnswer, hosts.site_eq, bind, Except.bind, Site.scaleAnswer,
      operation]; rfl, fun entry member => ?_⟩
    exact (eq_of_mem_answer member).imp (congrArg Prod.fst) (congrArg Prod.fst)
  | power params =>
    refine ⟨_, by simp only [Graph.scaleAnswer, hosts.site_eq, bind, Except.bind, Site.scaleAnswer,
      operation]; rfl, fun entry member => ?_⟩
    exact (eq_of_mem_answer member).imp (congrArg Prod.fst) (congrArg Prod.fst)

theorem propagateThrough_ensures {g : Graph} (wired : g.Wired) {site : Site} (hosts : g.Hosts site)
    (inputScales : TensorMap Float32) :
    (propagateThrough inputScales site.id).Ensures g (fun _ => Rescaled g)
      fun error after => Mismatch error ∧ Rescaled g after := by
  have first : g.firstScale [site.inputId] = .ok site.input.scale := by
    simp only [firstScale, tensor_eq_ok_iff.mpr hosts.input, bind, Except.bind]
    rfl
  have current : g.currentScales [site.inputId] =
      .ok (TensorMap.empty.insert site.inputId site.input.scale) := by
    simp only [currentScales, tensor_eq_ok_iff.mpr hosts.input, bind, Except.bind]
    rfl
  refine .ask_bind (stage_eq_ok_iff.mpr hosts.stage) ?_
  rw [ensures_ite, hosts.inputs, hosts.outputs]
  refine ⟨fun _ => .ask_bind first ?_, fun executed => .ask_bind current ?_⟩
  · rw [sweep_singleton]
    refine ((Rescaled.refl g).set hosts.output (.inr ?_) _).mono (fun _ _ => id) fun _ _ => False.elim
    simp [hosts.producer_eq wired]
  · rw [ensures_bind, ensures_get]
    obtain ⟨answer, answered, own⟩ := scaleAnswer_eq_ok hosts executed
      (TensorMap.empty.insert site.inputId site.input.scale)
      (g.selectStep inputScales (TensorMap.empty.insert site.inputId site.input.scale))
    refine .ask_bind answered (Ensures.sweep_of_each (.refl g) fun entry member now rescaled => ?_)
    exact rescaled.settle wired hosts site.input.scale (own entry member)

/-- Carrying the scales through fails only at a stage that asks for a scale that its input cannot
take. -/
theorem propagate_ensures {g : Graph} (wired : g.Wired) (inputScales : TensorMap Float32) :
    (propagate inputScales).Ensures g (fun _ => Rescaled g)
      fun error after => Mismatch error ∧ Rescaled g after := by
  rw [propagate, ensures_bind, ensures_get, ensures_bind]
  have started : (sweep (fun id => set id ((inputScales.get? id).getD 1.0))
      (g.tensorsWith .input)).Ensures g (fun _ => Rescaled g)
        fun error after => Mismatch error ∧ Rescaled g after := by
    refine Ensures.sweep_of_each (.refl g) fun id member now rescaled => ?_
    obtain ⟨known, input⟩ := List.mem_filter.mp member
    have atId := Array.getElem?_eq_getElem (mem_tensorIds.mp known)
    refine (rescaled.set atId (.inl ?_) _).mono (fun _ _ held => held) fun _ _ => False.elim
    simpa [atId] using input
  refine started.mono ?_ fun _ _ => id
  intro _ now rescaled
  obtain ⟨order, scheduled, ordered⟩ := (wired.of_undecided_eq rescaled.undecided).exists_schedule
  refine .ask_bind scheduled ?_
  simp only [ensures_bind, ensures_pure]
  refine Ensures.sweep_of_each rescaled fun id member now' rescaled' => ?_
  have plan := rescaled'.undecided.trans rescaled.undecided.symm
  have wired' := wired.of_undecided_eq rescaled'.undecided
  obtain ⟨site, hosts, rfl⟩ :=
    wired'.site_of_mem (((ordered.of_undecided_eq plan).mem_iff id).mp member)
  exact (propagateThrough_ensures wired' hosts inputScales).mono
    (fun _ _ later => rescaled'.trans later) fun _ _ refused => ⟨refused.1, rescaled'.trans refused.2⟩

end Scale

namespace Graph

variable {g now after : Graph} {id : TensorId} {tensor : Tensor} {goal : Tensor → Prop}

theorem tensorIds_nodup : g.tensorIds.Nodup := by
  refine List.pairwise_map.mpr (List.pairwise_lt_range.imp fun less same => ?_)
  exact Nat.ne_of_lt less (congrArg TensorId.index same)

/-- Work on one tensor brought it to a goal, left the plan and all other tensors alone, and counted
nothing exactly if the tensor stayed as it was. -/
structure Brings (g now : Graph) (id : TensorId) (goal : Tensor → Prop) (count : Nat)
    (after : Graph) : Prop where
  plan : after.planned = g.planned
  elsewhere : ∀ other, other ≠ id → after.lookup other = now.lookup other
  reached : ∀ tensor, after.lookup id = some tensor → goal tensor
  counted : count = 0 ↔ after.lookup id = now.lookup id

theorem Brings.stays (same : now.planned = g.planned) (atId : now.tensors[id.index]? = some tensor)
    (already : goal tensor) : Brings g now id goal 0 now where
  plan := same
  elsewhere _ _ := rfl
  reached tensor' atId' := by
    rw [lookup, atId] at atId'
    cases atId'
    exact already
  counted := by simp

theorem Brings.changes (same : now.planned = g.planned)
    (atId : now.tensors[id.index]? = some tensor) {change : Tensor → Tensor}
    (kept : ∀ tensor, (change tensor).planned = tensor.planned) (reached : goal (change tensor))
    (differs : change tensor ≠ tensor) : Brings g now id goal 1 (now.modifyTensor id change) where
  plan := planned_modifyTensor same kept
  elsewhere other elsewhere := lookup_modifyTensor_of_ne elsewhere
  reached tensor' atId' := by
    rw [lookup, tensors_modifyTensor, if_pos rfl, atId] at atId'
    cases atId'
    exact reached
  counted := by simp [lookup, tensors_modifyTensor, atId, differs]

/-- Bringing each tensor to a goal in turn. -/
theorem sweep_tensorIds (goal : Tensor → Prop) {failed : LoweringError → Graph → Prop} {treat : TensorId → Attempt Graph Nat}
    (each : ∀ {now : Graph} {id : TensorId} {tensor : Tensor}, now.planned = g.planned →
      now.tensors[id.index]? = some tensor →
        (treat id).Ensures now (Brings g now id goal) failed) :
    (sweep treat g.tensorIds).Ensures g
      (fun count after => after.planned = g.planned ∧
        (∀ {id : TensorId} {tensor : Tensor}, after.tensors[id.index]? = some tensor →
          goal tensor) ∧ (count = 0 ↔ after.tensors = g.tensors)) failed := by
  have apart : (g.tensorIds.map fun id => id).Nodup := by
    rw [List.map_id']
    exact tensorIds_nodup
  refine (Ensures.sweep_apart lookup (fun id => id)
    (fun _ found => ∀ tensor, found = some tensor → goal tensor)
    (fun now => now.planned = g.planned) apart rfl ?_).mono ?_ fun _ _ refused => refused
  · intro id member now same
    have known : id.index < now.tensors.size := by
      rw [size_tensors_of_undecided_eq (undecided_eq_of_planned_eq same)]
      exact mem_tensorIds.mp member
    refine (each same (Array.getElem?_eq_getElem known)).mono ?_ fun _ _ refused => refused
    exact fun _ _ brings => ⟨brings.plan, brings.elsewhere, brings.reached, brings.counted⟩
  · intro count after ended
    obtain ⟨same, reached, counted⟩ := ended
    refine ⟨same, fun {id tensor} atId => reached id ?_ tensor atId, counted.trans lookup_eq_iff⟩
    rw [mem_tensorIds, ← size_tensors_of_undecided_eq (undecided_eq_of_planned_eq same)]
    exact (Array.getElem?_eq_some_iff.mp atId).1

end Graph

namespace Batching

open TensorLowering.Graph

/-- No stage needs a tensor whole, so nothing can go wrong and every tensor may be split. -/
theorem determine_ensures {g : Graph} (wired : g.Wired) :
    determine.Ensures g
      (fun count after => after.planned = g.planned ∧
        (∀ {id : TensorId} {tensor : Tensor}, after.tensors[id.index]? = some tensor →
          tensor.batching = .split) ∧ (count = 0 ↔ after.tensors = g.tensors))
      fun _ _ => False := by
  have whole : ∀ id ∈ g.stageIds, wholeFor g id = .ok [] := by
    intro id member
    obtain ⟨site, hosts, rfl⟩ := wired.site_of_mem member
    have apart := hosts.inputId_ne_outputId wired
    have split : ∀ entry ∈ ((TensorMap.empty.insert site.inputId Batching.split).insert site.outputId
        Batching.split).toList, entry.2 = .split :=
      (TensorMap.forall_mem_answer apart).mpr ⟨rfl, rfl⟩
    simp only [wholeFor, batchAnswer, hosts.site_eq, bind, Except.bind, pure, Except.pure,
      Except.ok.injEq, List.map_eq_nil_iff, List.filter_eq_nil_iff]
    intro entry member'
    simp [split entry member']
  have none (id : TensorId) : id ∉ (g.stageIds.map fun _ => ([] : List TensorId)).flatten := by
    simp
  refine .ask_bind (mapM_eq_ok whole) ?_
  rw [ensures_bind, ensures_get]
  simp only [none, if_false]
  refine sweep_tensorIds (fun tensor => tensor.batching = .split) fun {now id tensor} same atId => ?_
  refine .ask_bind (tensor_eq_ok_iff.mpr atId) ?_
  simp only [ensures_bind, ensures_ite, ensures_pure, ensures_modify]
  refine ⟨fun already => .stays same atId already, fun differs => ?_⟩
  refine .changes same atId (fun _ => rfl) rfl fun unchanged => differs ?_
  exact unchanged ▸ rfl

end Batching

/-- The strides of the tensor are those that its requirement leads to. -/
def Tensor.Resolved (tensor : Tensor) : Prop :=
  ∃ strides, tensor.resolveStrides = .ok strides ∧ tensor.strides = some strides

/-- Resolving looks at nothing that is decided later. -/
theorem Tensor.resolveStrides_congr {tensor tensor' : Tensor} (type : tensor'.type = tensor.type)
    (extents : tensor'.extents = tensor.extents) (order : tensor'.order = tensor.order)
    (requirement : tensor'.requirement = tensor.requirement) :
    tensor'.resolveStrides = tensor.resolveStrides := by
  have from' (axes : List Axis) (position minimum : Nat) (strides : AxisMap) :
      tensor'.resolveFrom position minimum axes strides =
        tensor.resolveFrom position minimum axes strides := by
    induction axes generalizing position minimum strides with
    | nil => rfl
    | cons axis outer ih => simp only [resolveFrom, ih, requirement, extent, extents]
  unfold resolveStrides
  rw [from', type, order]

theorem Tensor.resolveStrides_planned (tensor : Tensor) :
    tensor.planned.resolveStrides = tensor.resolveStrides :=
  resolveStrides_congr rfl rfl rfl rfl

/-- Resolving stops only at a fixed stride that is too small. -/
theorem Tensor.demanded_lt_of_resolveFrom {tensor : Tensor} {position minimum : Nat}
    {axes : List Axis} {strides : AxisMap} {stride : InfeasibleStride}
    (failed : tensor.resolveFrom position minimum axes strides = .error stride) :
    stride.demanded.toNat < stride.minimum := by
  induction axes generalizing position minimum strides with
  | nil => cases failed
  | cons axis outer ih =>
    unfold resolveFrom at failed
    split at failed
    · rename_i demanded refused
      cases failed
      unfold Slot.choose at refused
      split at refused
      · split at refused <;> cases refused
        assumption
      · cases refused
    · exact ih failed

theorem Operation.decideMode_decideMode (operation : Operation) (first second : CopyMode) :
    (operation.decideMode first).decideMode second = operation.decideMode second := by
  cases operation <;> rfl

/-- A copy has the mode that follows from its two tensors. -/
def Graph.Site.ModeChosen (site : Site) : Prop :=
  site.stage.operation = site.stage.operation.decideMode (.choose [site.input, site.output])

namespace Layout

open TensorLowering.Graph

variable {g : Graph}

/-- A tensor of the graph asks for a fixed stride that is too small for what it has to hold. -/
def Infeasible (g : Graph) (error : LoweringError) : Prop :=
  ∃ (id : TensorId) (tensor : Tensor) (stride : InfeasibleStride),
    g.tensors[id.index]? = some tensor ∧ tensor.resolveStrides = .error stride ∧
      error = .negotiation (.infeasibleStride tensor.name stride)

/-- Resolving every tensor fails only at a fixed stride that is too small. -/
theorem resolve_ensures :
    (sweep resolve g.tensorIds).Ensures g
      (fun count after => after.planned = g.planned ∧
        (∀ {id : TensorId} {tensor : Tensor}, after.tensors[id.index]? = some tensor →
          tensor.Resolved) ∧ (count = 0 ↔ after.tensors = g.tensors))
      fun error _ => Infeasible g error := by
  refine sweep_tensorIds Tensor.Resolved fun {now id tensor} same atId => ?_
  refine .ask_bind (tensor_eq_ok_iff.mpr atId) ?_
  split
  · rename_i stride failed
    obtain ⟨tensor', atId', alike⟩ := tensor_of_planned_eq same atId
    have name : tensor'.name = tensor.name := (congrArg Tensor.name alike :)
    refine ⟨id, tensor', stride, atId', ?_, by rw [name]⟩
    rw [← tensor'.resolveStrides_planned, alike, tensor.resolveStrides_planned, failed]
  · rename_i strides chosen
    simp only [ensures_bind, ensures_ite, ensures_pure, ensures_modify]
    refine ⟨fun already => .stays same atId ⟨strides, chosen, already⟩, fun differs => ?_⟩
    refine .changes same atId (fun _ => rfl) ⟨strides, ?_, rfl⟩ fun unchanged => differs ?_
    · rw [← Tensor.resolveStrides_planned, ← chosen, ← Tensor.resolveStrides_planned tensor]
      rfl
    · exact unchanged ▸ rfl

/-- A stage records the mode that follows from its two tensors. -/
theorem finalizeStage_eq (wired : g.Wired) {site : Site} (hosts : g.Hosts site) :
    finalizeStage site.id g = .ok 0 (g.modifyStage site.id fun stage =>
      { stage with operation := stage.operation.decideMode (.choose [site.input, site.output]) }) := by
  have known : ∀ other ∈ site.stage.inputs ++ site.stage.outputs,
      g.tensor other = .ok (if other = site.inputId then site.input else site.output) := by
    intro other listed
    rw [hosts.inputs, hosts.outputs] at listed
    by_cases input : other = site.inputId
    · simp [input, tensor_eq_ok_iff.mpr hosts.input]
    · have output : other = site.outputId := by simpa [input] using listed
      simp [output, (hosts.inputId_ne_outputId wired).symm, tensor_eq_ok_iff.mpr hosts.output]
  have arity : site.stage.checkArity = .ok () :=
    Stage.checkArity_eq_ok_iff.mpr (wired.arity hosts.stage)
  have found := mapM_eq_ok known
  simp only [hosts.inputs, hosts.outputs, List.cons_append, List.nil_append, List.map_cons,
    List.map_nil, if_true, (hosts.inputId_ne_outputId wired).symm, if_false] at found
  simp only [finalizeStage, bind, EStateM.bind, ask, stage_eq_ok_iff.mpr hosts.stage, arity,
    hosts.inputs, hosts.outputs, List.cons_append, List.nil_append, found]
  rfl

/-- The modes of the copies are no matter of the tensors, and a mode that is recorded stays. -/
theorem record_ensures (wired : g.Wired) {order : List StageId} (ordered : g.Ordered order) :
    (sweep finalizeStage order).Ensures g
      (fun count after => after.tensors = g.tensors ∧ after.planned = g.planned ∧ count = 0 ∧
        ∀ site, after.Hosts site → site.ModeChosen)
      fun _ _ => False := by
  refine (Ensures.sweep (fun recorded count after => after.tensors = g.tensors ∧
    after.planned = g.planned ∧ count = 0 ∧
      ∀ site, after.Hosts site → site.id ∈ recorded → site.ModeChosen) ?_ ?_).mono ?_ fun _ _ => id
  · simp
  · intro recorded id later count now split reached
    obtain ⟨tensors, same, none, chosen⟩ := reached
    have plan := undecided_eq_of_planned_eq same
    have wired' := wired.of_undecided_eq plan
    have member : id ∈ now.stageIds := ((ordered.of_undecided_eq plan).mem_iff id).mp (by simp [split])
    obtain ⟨site, hosts, rfl⟩ := wired'.site_of_mem member
    unfold Ensures
    rw [finalizeStage_eq wired' hosts]
    refine ⟨tensors, planned_modifyStage same fun stage => by simp [Stage.undecided], by simp [none],
      fun other hosts' member' => ?_⟩
    have stage := hosts'.stage
    simp only [modifyStage, Array.getElem?_modify] at stage
    split at stage
    · rename_i here
      have here : site.id = other.id := congrArg StageId.mk here
      obtain ⟨before, atBefore, changed⟩ := Option.map_eq_some_iff.mp stage
      rw [← here, hosts.stage] at atBefore
      cases atBefore
      have inputs := hosts'.inputs
      have outputs := hosts'.outputs
      rw [← changed] at inputs outputs
      have input : other.inputId = site.inputId := by simpa [hosts.inputs, eq_comm] using inputs
      have output : other.outputId = site.outputId := by simpa [hosts.outputs, eq_comm] using outputs
      have atInput := hosts'.input
      have atOutput := hosts'.output
      rw [input] at atInput
      rw [output] at atOutput
      have first : other.input = site.input := Option.some.inj (atInput.symm.trans hosts.input)
      have second : other.output = site.output := Option.some.inj (atOutput.symm.trans hosts.output)
      rw [Site.ModeChosen, ← changed, first, second, Operation.decideMode_decideMode]
    · rename_i elsewhere
      refine chosen other ⟨stage, hosts'.inputs, hosts'.outputs, hosts'.input, hosts'.output⟩ ?_
      rcases List.mem_append.mp member' with old | last
      · exact old
      · exact absurd (congrArg StageId.index (List.mem_singleton.mp last)).symm elsewhere
  · intro count after reached
    obtain ⟨tensors, same, none, chosen⟩ := reached
    have ordered' := ordered.of_undecided_eq (undecided_eq_of_planned_eq same)
    exact ⟨tensors, same, none, fun site hosts =>
      chosen site hosts ((ordered'.mem_iff site.id).mpr hosts.mem_stageIds)⟩

/-- Finalizing leaves every tensor resolved and every stage with the mode that follows from its
tensors. It fails only at a fixed stride that is too small. -/
theorem finalize_ensures (wired : g.Wired) :
    finalize.Ensures g
      (fun count after => after.planned = g.planned ∧
        (∀ {id : TensorId} {tensor : Tensor}, after.tensors[id.index]? = some tensor →
          tensor.Resolved) ∧ (∀ site, after.Hosts site → site.ModeChosen) ∧
        (count = 0 ↔ after.tensors = g.tensors))
      fun error _ => Infeasible g error := by
  rw [finalize, ensures_bind, ensures_get, ensures_bind]
  refine resolve_ensures.mono ?_ fun _ _ => id
  intro resolved now reached
  obtain ⟨same, all, counted⟩ := reached
  have wired' := wired.of_undecided_eq (undecided_eq_of_planned_eq same)
  obtain ⟨order, scheduled, ordered⟩ := wired'.exists_schedule
  refine .ask_bind scheduled ?_
  simp only [ensures_bind, ensures_pure]
  refine (record_ensures wired' ordered).mono ?_ fun _ _ => False.elim
  intro recorded after reached
  obtain ⟨tensors, same', none, chosen⟩ := reached
  exact ⟨same'.trans same, fun {id tensor} atId => all (tensors ▸ atId), chosen,
    by simp [none, counted, tensors]⟩

end Layout

end TensorLowering
