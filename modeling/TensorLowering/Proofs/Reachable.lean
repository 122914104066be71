import TensorLowering.Proofs.Shape

namespace TensorLowering

open Attempt

/-- An order that can be made from outside: from a list of axes, which a text or a wire code is
read into, or as the planar order of a shape. -/
def AxisOrder.Built (order : AxisOrder) : Prop :=
  (∃ axes, ofAxes axes = .ok order) ∨ ∃ extents, order = planar extents

theorem AxisOrder.Built.nodup {order : AxisOrder} (built : order.Built) : order.axes.Nodup := by
  rcases built with ⟨axes, made⟩ | ⟨extents, rfl⟩
  · obtain ⟨rfl, _, _, nodup⟩ := ofAxes_eq_ok_iff.mp made
    exact nodup
  · exact extents.nodup_axes

/-- The graphs that building and lowering lead to, in any order and whether a pass succeeds or
fails. An operation that is refused leaves the graph as it was. -/
inductive Graph.Reachable : Graph → Prop
  | empty (name : String) : Reachable (.empty name)
  | addTensor {g : Graph} (name : String) (type : ElementType) (extents : AxisMap) {role : Role} :
      Reachable g → role ≠ .output → Reachable (g.addTensor name type extents role).2
  | markOutput {g after : Graph} {id : TensorId} :
      Reachable g → g.markOutput id = .ok after → Reachable after
  | setInputOrder {g after : Graph} {id : TensorId} {order : AxisOrder} :
      Reachable g → order.Built → g.setInputOrder id order = .ok after → Reachable after
  | addCopy {g after : Graph} {name : String} {origin : Option Origin}
      {inputs outputs : List TensorId} {demands : CopyDemands} {id : StageId} :
      Reachable g → g.addCopy name origin inputs outputs demands = .ok (id, after) →
      Reachable after
  | addPower {g after : Graph} {name : String} {origin : Option Origin}
      {inputs outputs : List TensorId} {params : PowerParams} {id : StageId} :
      Reachable g → g.addPower name origin inputs outputs params = .ok (id, after) →
      Reachable after
  | addExpand {g after : Graph} {name : String} {origin : Option Origin}
      {inputs outputs : List TensorId} {offset : AxisMap} {id : StageId} :
      Reachable g → g.addExpand name origin inputs outputs offset = .ok (id, after) →
      Reachable after
  | addDetached {g source after : Graph} {name : String} {detached : DetachedStage}
      {inputs outputs : List TensorId} {copied id : StageId} :
      Reachable g → Reachable source → source.detach copied = .ok detached →
      g.addDetached name detached inputs outputs = .ok (id, after) → Reachable after
  | pass {w : Workspace} {settings : Settings} {pass : Pass Workspace} :
      Reachable w.graph → pass ∈ Pass.all settings → Reachable (Attempt.state pass.run w).graph

namespace Pass

variable {kept : Graph → Prop}

theorem keeps_updating {work : Attempt Graph Nat} (keeps : Keeps kept work) (name : String) :
    Keeps (fun w : Workspace => kept w.graph) (updating name work).run :=
  (keeps.within fun _ _ => rfl).bind fun _ => keeps_pure _

theorem keeps_checking (name : String) (check : Graph → Except LoweringError Unit) :
    Keeps (fun w : Workspace => kept w.graph) (checking name check).run :=
  (keeps_ask _).bind fun _ => keeps_pure _

theorem keeps_serialize : Keeps (fun w : Workspace => kept w.graph) serialize.run :=
  (keeps_ask _).bind fun _ _ before => before

/-- What the work inside the passes before the layout is finalized keeps of a graph, every pass but
that one keeps. -/
theorem keeps_of_ne_finalizeLayout {settings : Settings}
    (scale : Keeps kept (Scale.propagate settings.inputScales))
    (order : Keeps kept AxisOrder.propagate) (negotiate : Keeps kept Negotiation.negotiate)
    (batch : Keeps kept Batching.determine) {pass : Pass Workspace} (member : pass ∈ all settings)
    (other : pass ≠ finalizeLayout) : Keeps (fun w : Workspace => kept w.graph) pass.run := by
  simp only [all, List.mem_cons, List.not_mem_nil, or_false] at member
  rcases member with rfl | rfl | rfl | rfl | rfl | rfl | rfl | rfl
  · exact keeps_checking _ _
  · exact keeps_updating scale _
  · exact keeps_updating order _
  · exact keeps_updating negotiate _
  · exact keeps_updating batch _
  · exact absurd rfl other
  · exact keeps_checking _ _
  · exact keeps_serialize

/-- What the work inside the passes keeps of a graph, the passes keep. -/
theorem keeps_of_mem {settings : Settings}
    (scale : Keeps kept (Scale.propagate settings.inputScales))
    (order : Keeps kept AxisOrder.propagate) (negotiate : Keeps kept Negotiation.negotiate)
    (batch : Keeps kept Batching.determine) (finalize : Keeps kept Layout.finalize)
    {pass : Pass Workspace} (member : pass ∈ all settings) :
    Keeps (fun w : Workspace => kept w.graph) pass.run := by
  by_cases finalizes : pass = finalizeLayout
  · exact finalizes ▸ keeps_updating finalize _
  · exact keeps_of_ne_finalizeLayout scale order negotiate batch member finalizes

end Pass

namespace Graph

variable {g after : Graph}

theorem markOutput_eq_ok_iff {id : TensorId} :
    g.markOutput id = .ok after ↔ ∃ tensor, g.tensors[id.index]? = some tensor ∧
      tensor.role ≠ .input ∧ g.modifyTensor id (fun tensor => { tensor with role := .output }) =
        after := by
  simp only [markOutput, bind_eq_ok, tensor_eq_ok_iff]
  refine exists_congr fun tensor => and_congr_right fun _ => ?_
  split <;> simp_all [pure, Except.pure, throw, throwThe, MonadExceptOf.throw]

theorem setInputOrder_eq_ok_iff {id : TensorId} {order : AxisOrder} :
    g.setInputOrder id order = .ok after ↔ ∃ tensor, g.tensors[id.index]? = some tensor ∧
      tensor.role = .input ∧ order.covers tensor.extents ∧
        g.modifyTensor id (fun tensor => { tensor with order := order }) = after := by
  simp only [setInputOrder, bind_eq_ok, tensor_eq_ok_iff]
  refine exists_congr fun tensor => and_congr_right fun _ => ?_
  split
  · simp_all [throw, throwThe, MonadExceptOf.throw]
  · split <;> simp_all [pure, Except.pure, throw, throwThe, MonadExceptOf.throw]

theorem wired_empty (name : String) : (empty name).Wired := by
  constructor <;> simp [empty]

theorem Wired.addTensor (wired : g.Wired) (name : String) (type : ElementType) (extents : AxisMap)
    (role : Role) : (g.addTensor name type extents role).2.Wired := by
  have lookup (id : TensorId) (tensor : Tensor) :
      (g.tensors.push (.fresh name type extents role))[id.index]? = some tensor ↔
        g.tensors[id.index]? = some tensor ∨
          id.index = g.tensors.size ∧ tensor = .fresh name type extents role := by
    rw [Array.getElem?_push]
    by_cases last : id.index = g.tensors.size
    · simp [last, eq_comm]
    · simp [last]
  have unlisted {id : TensorId} (last : id.index = g.tensors.size) {stage : Stage} {at' : StageId}
      (atId : g.stages[at'.index]? = some stage) : id ∉ stage.inputs ++ stage.outputs := by
    intro member
    have known := wired.known atId member
    omega
  constructor
  case arity => exact wired.arity
  case known =>
    intro id stage tensor atId member
    have known := wired.known atId member
    simp only [Graph.addTensor, Array.size_push]
    omega
  case readers =>
    intro id tensor reader atId
    rcases (lookup id tensor).mp atId with old | ⟨last, rfl⟩
    · exact wired.readers old
    · simp only [Tensor.fresh, List.not_mem_nil, false_iff]
      intro found
      obtain ⟨stage, atReader, read⟩ := found
      exact unlisted last atReader (List.mem_append_left _ read)
  case sorted =>
    intro id tensor atId
    rcases (lookup id tensor).mp atId with old | ⟨_, rfl⟩
    · exact wired.sorted old
    · exact .nil
  case writer =>
    intro id tensor writer atId
    rcases (lookup id tensor).mp atId with old | ⟨last, rfl⟩
    · exact wired.writer old
    · simp only [Tensor.fresh, reduceCtorEq, false_iff]
      intro found
      obtain ⟨stage, atWriter, written⟩ := found
      exact unlisted last atWriter (List.mem_append_right _ written)
  case given =>
    intro id tensor atId
    rcases (lookup id tensor).mp atId with old | ⟨_, rfl⟩
    · exact wired.given old
    · exact fun _ => rfl
  case acyclic => exact wired.acyclic

/-- The role of a tensor may change, as long as nothing becomes an input. -/
theorem Wired.markOutput (wired : g.Wired) (id : TensorId) :
    (g.modifyTensor id fun tensor => { tensor with role := .output }).Wired := by
  have lookup {other : TensorId} {tensor : Tensor}
      (atOther : (g.modifyTensor id fun tensor => { tensor with role := .output }).tensors[other.index]? =
        some tensor) :
      ∃ before, g.tensors[other.index]? = some before ∧ tensor.consumers = before.consumers ∧
        tensor.producer = before.producer ∧ (tensor.role = .input → before.role = .input) := by
    rw [tensors_modifyTensor] at atOther
    split at atOther
    · obtain ⟨before, atBefore, rfl⟩ := Option.map_eq_some_iff.mp atOther
      exact ⟨before, atBefore, rfl, rfl, by simp⟩
    · exact ⟨tensor, atOther, rfl, rfl, fun role => role⟩
  constructor
  case arity => exact wired.arity
  case known =>
    intro _ _ _ atId member
    simpa [modifyTensor] using wired.known atId member
  case readers =>
    intro _ _ _ atId
    obtain ⟨before, atBefore, consumers, _, _⟩ := lookup atId
    rw [consumers]
    exact wired.readers atBefore
  case sorted =>
    intro _ _ atId
    obtain ⟨before, atBefore, consumers, _, _⟩ := lookup atId
    rw [consumers]
    exact wired.sorted atBefore
  case writer =>
    intro _ _ _ atId
    obtain ⟨before, atBefore, _, producer, _⟩ := lookup atId
    rw [producer]
    exact wired.writer atBefore
  case given =>
    intro _ _ atId role
    obtain ⟨before, atBefore, _, producer, input⟩ := lookup atId
    rw [producer]
    exact wired.given atBefore (input role)
  case acyclic => exact wired.acyclic

theorem WellFormed.insertStage (formed : g.WellFormed) {stage : Stage} {id : StageId}
    (inserted : g.insertStage stage = .ok (id, after)) : after.WellFormed := by
  obtain ⟨accepts, _, rfl⟩ := insertStage_eq_ok_iff.mp inserted
  refine ⟨formed.wired.connect accepts, fun atId => ?_⟩
  rw [tensors_connect] at atId
  obtain ⟨before, atBefore, rfl⟩ := Option.map_eq_some_iff.mp atId
  have shaped := formed.shaped atBefore
  exact ⟨shaped.nodup, shaped.axes, shaped.bounded, shaped.resolved⟩

/-- Every reachable graph is well formed. -/
theorem Reachable.wellFormed (reachable : g.Reachable) : g.WellFormed := by
  induction reachable with
  | empty name => exact ⟨wired_empty name, by simp [Graph.empty]⟩
  | @addTensor g name type extents role _ _ ih =>
    refine ⟨ih.wired.addTensor name type extents role, fun {id tensor} atId => ?_⟩
    simp only [Graph.addTensor, Array.getElem?_push] at atId
    split at atId
    · cases atId
      exact .of_fresh name type extents role
    · exact ih.shaped atId
  | markOutput _ marked ih =>
    obtain ⟨tensor, -, -, rfl⟩ := markOutput_eq_ok_iff.mp marked
    refine ⟨ih.wired.markOutput _, fun atId => ?_⟩
    rw [tensors_modifyTensor] at atId
    split at atId
    · obtain ⟨before, atBefore, rfl⟩ := Option.map_eq_some_iff.mp atId
      have shaped := ih.shaped atBefore
      exact ⟨shaped.nodup, shaped.axes, shaped.bounded, shaped.resolved⟩
    · exact ih.shaped atId
  | setInputOrder _ built chosen ih =>
    obtain ⟨tensor, atId, -, covers, rfl⟩ := setInputOrder_eq_ok_iff.mp chosen
    refine ih.modifyTensor (fun _ => rfl) fun tensor' atId' => ?_
    obtain rfl := Option.some.inj (atId.symm.trans atId')
    exact (ih.shaped atId).with_order built.nodup covers
  | addCopy _ inserted ih => exact ih.insertStage inserted
  | addPower _ inserted ih => exact ih.insertStage inserted
  | addExpand _ inserted ih => exact ih.insertStage inserted
  | addDetached _ _ _ inserted ih => exact ih.insertStage inserted
  | @pass w settings pass _ member ih =>
    exact keeps_iff_state.mp (Pass.keeps_of_mem (wellFormed_scale settings.inputScales)
      wellFormed_order wellFormed_negotiate wellFormed_batch wellFormed_finalize member) w ih

/-- A row of four bytes that is copied and then made two bytes wider. -/
def widenedRow (demands : CopyDemands) : Graph where
  name := "row"
  tensors := #[
    { Tensor.fresh "given" .u8 { w := some 4 } .input with consumers := [⟨0⟩] },
    { Tensor.fresh "copied" .u8 { w := some 4 } .intermediate with
      producer := some ⟨0⟩, consumers := [⟨1⟩] },
    { Tensor.fresh "wide" .u8 { w := some 6 } .intermediate with producer := some ⟨1⟩ }]
  stages := #[
    ⟨"copy", none, [⟨0⟩], [⟨1⟩], .copy demands none⟩,
    ⟨"widen", none, [⟨1⟩], [⟨2⟩], .expand {}⟩]

theorem reachable_widenedRow (demands : CopyDemands) : (widenedRow demands).Reachable := by
  let given := ((empty "row").addTensor "given" .u8 { w := some 4 } .input).2
  let copied := (given.addTensor "copied" .u8 { w := some 4 } .intermediate).2
  let wide := (copied.addTensor "wide" .u8 { w := some 6 } .intermediate).2
  have tensors : wide.Reachable :=
    (((Reachable.empty "row").addTensor _ _ _ (by decide)).addTensor _ _ _ (by decide)).addTensor
      _ _ _ (by decide)
  let copy : Stage := ⟨"copy", none, [⟨0⟩], [⟨1⟩], .copy demands none⟩
  have copies : wide.addCopy "copy" none [⟨0⟩] [⟨1⟩] demands = .ok (⟨0⟩, wide.connect copy) := by
    with_unfolding_all rfl
  have widens : (wide.connect copy).addExpand "widen" none [⟨1⟩] [⟨2⟩] {} =
      .ok (⟨1⟩, widenedRow demands) := by
    with_unfolding_all rfl
  exact (tensors.addCopy copies).addExpand widens

/-- The row with a copy that spreads its bytes, eight bytes apart. -/
def spreadRow : Graph := widenedRow { output := Requirement.empty.set 0 (.fixed 8) }

/-- The order of a tensor names each of its axes once, only positions of its axes ask for a stride,
and once it has strides there is one for each axis. -/
theorem Reachable.representation (reachable : g.Reachable) {id : TensorId} {tensor : Tensor}
    (atId : g.tensors[id.index]? = some tensor) :
    tensor.order.axes.Nodup ∧
    (∀ axis, axis ∈ tensor.order.axes ↔ axis ∈ tensor.extents.axes) ∧
    (∀ entry ∈ tensor.requirement.concrete, entry.1 < tensor.extents.size) ∧
    ∀ strides, tensor.strides = some strides → strides.axes = tensor.extents.axes := by
  have shaped := reachable.wellFormed.shaped atId
  refine ⟨shaped.nodup, fun axis => ?_, fun entry member => ?_, fun strides resolved => ?_⟩
  · rw [shaped.axes, AxisMap.mem_axes]
  · obtain ⟨slot, asks⟩ := Requirement.mem_concrete.mp member
    rw [← shaped.rank_eq]
    exact shaped.bounded entry.1 (slot ▸ asks)
  · have same : strides.has = tensor.extents.has :=
      funext fun axis => Bool.eq_iff_iff.mpr (shaped.resolved strides resolved axis)
    rw [AxisMap.axes, same, AxisMap.axes]

/-- A copy that asks for a stride at a second position of the row is refused, but by then its other
demand has been entered. -/
theorem representation_widenedRow :
    ∃ error after tensor, Pass.negotiateStrides.run (.ofGraph (widenedRow
        { input := Requirement.empty.set 0 (.fixed 8)
          output := Requirement.empty.set 1 (.fixed 8) })) = .error error after ∧
      after.graph.tensors[0]? = some tensor ∧ tensor.requirement.concrete = [(0, .fixed 8)] ∧
      ∀ entry ∈ tensor.requirement.concrete, entry.1 < tensor.extents.size := by
  let asking : Workspace := .ofGraph (widenedRow
    { input := Requirement.empty.set 0 (.fixed 8), output := Requirement.empty.set 1 (.fixed 8) })
  let stopped : Workspace := Attempt.state Pass.negotiateStrides.run asking
  have failed : result? Pass.negotiateStrides.run asking = none := by
    decide +kernel
  have entered : (stopped.graph.tensors[0]?).map (·.requirement.concrete) = some [(0, .fixed 8)] := by
    decide +kernel
  obtain ⟨tensor, atZero, partly⟩ := Option.map_eq_some_iff.mp entered
  have reachable : stopped.graph.Reachable :=
    @Reachable.pass asking {} _ (reachable_widenedRow _) (by simp [Pass.all])
  have atId : stopped.graph.tensors[(⟨0⟩ : TensorId).index]? = some tensor := atZero
  obtain ⟨-, -, bounded, -⟩ := reachable.representation atId
  cases outcome : Pass.negotiateStrides.run asking with
  | ok report after => simp [result?, outcome] at failed
  | error error after =>
    have same : stopped = after := by simp only [stopped, Attempt.state, outcome]
    exact ⟨error, after, tensor, rfl, same ▸ atZero, partly, bounded⟩

end Graph

end TensorLowering
