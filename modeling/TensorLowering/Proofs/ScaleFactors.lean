import TensorLowering.Proofs.Compilation
import TensorLowering.Proofs.Propagation

namespace TensorLowering

open Attempt TensorLowering.Graph Ieee Image

/-- The elementwise kernel over exact numbers. -/
structure ExactKernel where
  scale : ℚ
  shift : ℚ
  power : ℚ

namespace ExactKernel

noncomputable def apply (kernel : ExactKernel) (x : ℝ) : ℝ :=
  (kernel.shift + kernel.scale * x) ^ (kernel.power : ℝ)

/-- The kernel of a record: the shift is multiplied by the scale of the output. -/
def scaleShift (kernel : ExactKernel) (s : ℚ) : ExactKernel :=
  { kernel with shift := kernel.shift * s }

/-- Scaled values go to scaled values if the kernel is linear, or if the scale is one. -/
theorem apply_scaleShift (kernel : ExactKernel) {s : ℚ} (free : kernel.power = 1 ∨ s = 1) (x : ℝ) :
    (kernel.scaleShift s).apply (s * x) = s * kernel.apply x := by
  rcases free with linear | rfl
  · simp only [apply, scaleShift, linear, Rat.cast_mul, Rat.cast_one, Real.rpow_one]
    ring
  · simp [apply, scaleShift]

end ExactKernel

namespace PowerParams

/-- The kernel that the numbers stand for, if all of them are finite. -/
def kernel? (params : PowerParams) : Option ExactKernel := do
  let scale ← value? params.scale
  let shift ← value? params.shift
  let power ← value? params.power
  return ⟨scale, shift, power⟩

theorem exists_kernel {params : PowerParams} (finite : params.isFinite) :
    ∃ kernel, params.kernel? = some kernel ∧ value? params.power = some kernel.power := by
  simp only [isFinite, Bool.and_eq_true] at finite
  obtain ⟨scale, scaleIs⟩ := exists_value finite.1.1
  obtain ⟨shift, shiftIs⟩ := exists_value finite.1.2
  obtain ⟨power, powerIs⟩ := exists_value finite.2
  exact ⟨⟨scale, shift, power⟩, by simp [kernel?, scaleIs, shiftIs, powerIs], powerIs⟩

end PowerParams

namespace Scale

/-- What a graph is like once scales are carried through: only scales are changed, every tensor has
the effective scale of the network input that it comes from, and the record of a power stage means
what the stage means, over exact numbers and up to the scale. -/
structure CarriedThrough (before : Graph) (inputScales : TensorMap Float32) (after : Graph) : Prop
    where
  rescaled : ∃ s, after = before.rescale s
  effective : ∀ {root id : TensorId} {tensor : Tensor}, before.StartsAt root id →
    after.tensors[id.index]? = some tensor →
      tensor.scale == before.effectiveScale inputScales root
  balanced : ∀ id ∈ after.stageIds, ∃ site, after.Hosts site ∧ site.id = id ∧
    site.input.scale == site.output.scale
  written : ∀ {site : Site} {params : PowerParams}, after.Hosts site →
    site.stage.operation = .power params → ∀ writer : Writer,
      after.writeParams site.id writer = .ok () (((writer.append (wordBytes params.scale.toBits)).append
        (wordBytes (params.shift * site.output.scale).toBits)).append
          (wordBytes params.power.toBits))
  exact : ∀ {site : Site} {params : PowerParams}, after.Hosts site →
    site.stage.operation = .power params → params.isFinite → site.input.scale.isFinite →
      ∃ s kernel, value? site.input.scale = some s ∧ value? site.output.scale = some s ∧
        params.kernel? = some kernel ∧
          ∀ x : ℝ, (kernel.scaleShift s).apply (s * x) = s * kernel.apply x

variable {g : Graph} {inputScales : TensorMap Float32} {s : TensorId → Float32}

theorem writeParams_eq_ok {site : Site} (hosts : g.Hosts site) {params : PowerParams}
    (operation : site.stage.operation = .power params) (writer : Writer) :
    g.writeParams site.id writer = .ok () (((writer.append (wordBytes params.scale.toBits)).append
      (wordBytes (params.shift * site.output.scale).toBits)).append
        (wordBytes params.power.toBits)) := by
  simp only [writeParams, ask, hosts.site_eq, bind, EStateM.bind, operation]
  rfl

/-- A power stage with one scale on both sides, one if its kernel is not linear, means what it
means without the scale. -/
theorem exists_exactKernel {site : Site} {params : PowerParams}
    (operation : site.stage.operation = .power params) (finite : params.isFinite)
    (scaled : site.input.scale.isFinite) (balanced : site.input.scale == site.output.scale)
    (unscaled : site.stage.isNonlinear → site.input.scale == 1.0) :
    ∃ s kernel, value? site.input.scale = some s ∧ value? site.output.scale = some s ∧
      params.kernel? = some kernel ∧
        ∀ x : ℝ, (kernel.scaleShift s).apply (s * x) = s * kernel.apply x := by
  obtain ⟨factor, input⟩ := exists_value scaled
  obtain ⟨kernel, read, power⟩ := PowerParams.exists_kernel finite
  have output : value? site.output.scale = some factor :=
    (value?_eq_of_beq balanced).symm.trans input
  refine ⟨factor, kernel, input, output, read, kernel.apply_scaleShift ?_⟩
  by_cases linear : params.power == 1.0
  · have one : value? params.power = some 1 := (value?_eq_of_beq linear).trans value?_one
    exact .inl (Option.some.inj (power.symm.trans one))
  · have nonlinear : site.stage.isNonlinear := by
      simpa [Stage.isNonlinear, operation, bne] using linear
    have one : value? site.input.scale = some 1 :=
      (value?_eq_of_beq (unscaled nonlinear)).trans value?_one
    exact .inr (Option.some.inj (input.symm.trans one))

theorem Carries.carriedThrough (carries : Carries g inputScales g.stageIds s) (wired : g.Wired)
    (valid : g.validate = .ok ()) : CarriedThrough g inputScales (g.rescale s) := by
  have sides {site : Site} (hosts : (g.rescale s).Hosts site) :
      site.input.scale == site.output.scale ∧
        (site.stage.isNonlinear → site.input.scale == 1.0) := by
    obtain ⟨before, hosts', rfl⟩ := hosts_rescale_iff.mp hosts
    have known := (Array.getElem?_eq_some_iff.mp hosts'.input).1
    obtain ⟨root, starts⟩ := exists_startsAt wired valid known
    have input := carries.beq_effectiveScale starts
    have output := carries.beq_effectiveScale (.through hosts' starts)
    exact ⟨BEq.trans input (BEq.symm output), fun nonlinear =>
      BEq.trans input (carries.unscaled hosts' hosts'.mem_stageIds nonlinear starts)⟩
  constructor
  case rescaled => exact ⟨s, rfl⟩
  case effective =>
    intro root id tensor starts atId
    rw [tensors_rescale] at atId
    obtain ⟨before, -, rfl⟩ := Option.map_eq_some_iff.mp atId
    exact carries.beq_effectiveScale starts
  case balanced =>
    intro id member
    have wired' : (g.rescale s).Wired := wired.of_undecided_eq (undecided_rescale g s)
    obtain ⟨site, hosts, rfl⟩ := wired'.site_of_mem member
    exact ⟨site, hosts, rfl, (sides hosts).1⟩
  case written => exact fun hosts operation => writeParams_eq_ok hosts operation
  case exact =>
    intro site params hosts operation finite scaled
    exact exists_exactKernel operation finite scaled (sides hosts).1 (sides hosts).2

/-! ### Scales of other tensors -/

/-- Two tables give every network input the same scale, or none. -/
def SameGiven (g : Graph) (inputScales inputScales' : TensorMap Float32) : Prop :=
  ∀ (id : TensorId) (tensor : Tensor), g.tensors[id.index]? = some tensor → tensor.role = .input →
    inputScales'.get? id = inputScales.get? id

variable {inputScales' : TensorMap Float32}

theorem SameGiven.of_undecided_eq (same : SameGiven g inputScales inputScales') {now : Graph}
    (alike : now.undecided = g.undecided) : SameGiven now inputScales inputScales' := by
  intro id tensor atId role
  obtain ⟨tensor', atId', undecided⟩ := tensor_of_undecided_eq alike atId
  have role' : tensor'.role = tensor.role := (congrArg Tensor.role undecided :)
  exact same id tensor' atId' (role'.trans role)

theorem SameGiven.selectStep_eq (same : SameGiven g inputScales inputScales')
    (current : TensorMap Float32) :
    g.selectStep inputScales' current = g.selectStep inputScales current := by
  have configured (id : TensorId) :
      ((g.tensors[id.index]?).any (fun tensor => tensor.role = .input) && inputScales'.contains id) =
        ((g.tensors[id.index]?).any (fun tensor => tensor.role = .input) &&
          inputScales.contains id) := by
    cases atId : g.tensors[id.index]? with
    | none => rfl
    | some tensor =>
      by_cases role : tensor.role = .input
      · simp [TensorMap.contains, same id tensor atId role]
      · simp [role]
  simp only [selectStep, configured]

theorem SameGiven.propagateThrough_eq (same : SameGiven g inputScales inputScales')
    (id : StageId) : propagateThrough inputScales' id g = propagateThrough inputScales id g := by
  refine ask_bind_congr fun stage => ?_
  split
  · rfl
  · refine ask_bind_congr fun current => ?_
    change (ask (·.scaleAnswer id current (g.selectStep inputScales' current)) >>= _) g = _
    rw [same.selectStep_eq]
    rfl

/-- Carrying the scales through asks for the scales of network inputs only. -/
theorem SameGiven.propagate_eq (same : SameGiven g inputScales inputScales') :
    propagate inputScales' g = propagate inputScales g := by
  have scaled (now : Graph) (id : TensorId) (scale : Float32)
      (alike : now.undecided = g.undecided) :
      (now.modifyTensor id fun tensor => { tensor with scale := scale }).undecided =
        g.undecided := by
    refine (undecided_modifyTensor fun _ => ?_).trans alike
    rfl
  let start (scales : TensorMap Float32) : Attempt Graph Nat :=
    sweep (fun id => set id ((scales.get? id).getD 1.0)) (g.tensorsWith .input)
  have keeps (scales : TensorMap Float32) :
      Keeps (fun now => now.undecided = g.undecided) (start scales) :=
    keeps_sweep fun id _ => set_keeps scaled id _
  have started : start inputScales' g = start inputScales g := by
    refine @sweep_congr _ _ (fun _ => True) _ _ _ _ trivial (fun id _ => ?_) fun id member now _ => ?_
    · exact set_keeps (fun _ _ _ => fun _ => trivial) id _
    · obtain ⟨known, input⟩ := List.mem_filter.mp member
      have atId := Array.getElem?_eq_getElem (mem_tensorIds.mp known)
      rw [same id _ atId (by simpa [atId] using input)]
  change (start inputScales' >>= _) g = (start inputScales >>= _) g
  refine bind_congr_of_ok started fun count now ran => ask_bind_congr fun order => ?_
  refine bind_congr_of_ok ?_ fun _ _ _ => rfl
  have alike : now.undecided = g.undecided := (keeps inputScales' g rfl).of_ok ran
  exact sweep_congr alike (fun id _ => propagateThrough_keeps scaled inputScales' id)
    fun id _ now' alike => (same.of_undecided_eq alike).propagateThrough_eq id

end Scale

/-- In a graph whose structure passes its check, every tensor comes from one network input, and
carrying the scales through is exact: it fails if and only if a kernel that takes unscaled values
only is behind a network input that stays scaled, and otherwise every tensor has the scale of the
network input that it comes from. -/
theorem Pass.propagateScaleFactors_exact {w : Workspace} {settings : Settings}
    (reachable : w.graph.Reachable) (valid : w.graph.validate = .ok ())
    (numbers : ∀ id scale, settings.inputScales.get? id = some scale → scale.isNaN = false) :
    (∀ id ∈ w.graph.tensorIds, ∃! root, w.graph.StartsAt root id) ∧
    (Scale.Obstructed w.graph settings.inputScales → ∃ error after,
      (propagateScaleFactors settings).run w = .error error after ∧ Scale.Mismatch error) ∧
    (¬Scale.Obstructed w.graph settings.inputScales → ∃ report after,
      (propagateScaleFactors settings).run w = .ok report { w with graph := after } ∧
        Scale.CarriedThrough w.graph settings.inputScales after) ∧
    ∀ settings' : Settings, Scale.SameGiven w.graph settings.inputScales settings'.inputScales →
      (propagateScaleFactors settings').run w = (propagateScaleFactors settings).run w := by
  have wired := reachable.wellFormed.wired
  have numbers' (id : TensorId) :
      givenScale settings.inputScales id == givenScale settings.inputScales id := by
    unfold givenScale
    cases given : settings.inputScales.get? id with
    | none => exact one_beq_one
    | some scale => exact beq_self_of_isNaN_eq_false (numbers id scale given)
  have carried : (propagateScaleFactors settings).run.Ensures w
      (fun _ after => ∃ s, after = { w with graph := w.graph.rescale s } ∧
        Scale.Carries w.graph settings.inputScales w.graph.stageIds s)
      fun error _ => Scale.Mismatch error ∧ Scale.Obstructed w.graph settings.inputScales := by
    rw [propagateScaleFactors, ensures_updating]
    refine (Scale.propagate_carries wired valid numbers').mono ?_ fun _ _ => id
    intro _ after found
    obtain ⟨s, rfl, carries⟩ := found
    exact ⟨s, rfl, carries⟩
  refine ⟨fun id member => ?_, fun obstructed => ?_, fun free => ?_, fun settings' same => ?_⟩
  · obtain ⟨root, starts⟩ := exists_startsAt wired valid (mem_tensorIds.mp member)
    exact ⟨root, starts, fun root' starts' => starts'.unique wired starts⟩
  · cases outcome : (propagateScaleFactors settings).run w with
    | ok report after =>
      obtain ⟨s, -, carries⟩ := carried.of_ok outcome
      exact absurd obstructed carries.not_obstructed
    | error error after => exact ⟨error, after, rfl, (carried.of_error outcome).1⟩
  · cases outcome : (propagateScaleFactors settings).run w with
    | ok report after =>
      obtain ⟨s, rfl, carries⟩ := carried.of_ok outcome
      exact ⟨report, w.graph.rescale s, rfl, carries.carriedThrough wired valid⟩
    | error error after => exact absurd (carried.of_error outcome).2 free
  · simp only [propagateScaleFactors, updating, bind, EStateM.bind, Attempt.within,
      same.propagate_eq]

namespace Graph

/-- A row that a linear kernel triples and shifts. -/
def shiftedRow : Graph where
  name := "row"
  tensors := #[
    { Tensor.fresh "given" .fp16 { w := some 4 } .input with consumers := [⟨0⟩] },
    { Tensor.fresh "shifted" .fp16 { w := some 4 } .intermediate with producer := some ⟨0⟩ }]
  stages := #[⟨"shift", none, [⟨0⟩], [⟨1⟩], .power ⟨3.0, 0.5, 1.0⟩⟩]

theorem reachable_shiftedRow : shiftedRow.Reachable := by
  let given := ((empty "row").addTensor "given" .fp16 { w := some 4 } .input).2
  let shifted := (given.addTensor "shifted" .fp16 { w := some 4 } .intermediate).2
  have tensors : shifted.Reachable :=
    ((Reachable.empty "row").addTensor _ _ _ (by decide)).addTensor _ _ _ (by decide)
  have shifts : shifted.addPower "shift" none [⟨0⟩] [⟨1⟩] ⟨3.0, 0.5, 1.0⟩ =
      .ok (⟨0⟩, shiftedRow) := by
    with_unfolding_all rfl
  exact tensors.addPower shifts

/-- The row keeps a scale of two, and its kernel takes doubled values to doubled values. -/
theorem propagateScaleFactors_shiftedRow :
    ∃ report after,
      (Pass.propagateScaleFactors { inputScales := TensorMap.empty.insert ⟨0⟩ 2.0 }).run
          (.ofGraph shiftedRow) = .ok report { Workspace.ofGraph shiftedRow with graph := after } ∧
        Scale.CarriedThrough shiftedRow (TensorMap.empty.insert ⟨0⟩ 2.0) after ∧
          shiftedRow.effectiveScale (TensorMap.empty.insert ⟨0⟩ 2.0) ⟨0⟩ = 2.0 := by
  have valid : (Workspace.ofGraph shiftedRow).graph.validate = .ok () := by decide +kernel
  have numbers (id : TensorId) (scale : Float32)
      (given : (TensorMap.empty.insert ⟨0⟩ 2.0).get? id = some scale) : scale.isNaN = false := by
    rw [TensorMap.get?_insert] at given
    split at given
    · cases given
      decide +kernel
    · cases given
  have linear : ∀ stage ∈ shiftedRow.stages, stage.isNonlinear = false := by decide +kernel
  obtain ⟨-, -, free, -⟩ := @Pass.propagateScaleFactors_exact (.ofGraph shiftedRow)
    { inputScales := TensorMap.empty.insert ⟨0⟩ 2.0 } reachable_shiftedRow valid numbers
  obtain ⟨report, after, run, carried⟩ := free fun obstructed => by
    obtain ⟨site, -, hosts, nonlinear, -⟩ := obstructed
    simp [linear site.stage (Array.mem_of_getElem? hosts.stage)] at nonlinear
  exact ⟨report, after, run, carried, by decide +kernel⟩

end Graph

end TensorLowering
