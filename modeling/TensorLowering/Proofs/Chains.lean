import TensorLowering.Proofs.Decisions
import TensorLowering.Proofs.Ieee

namespace TensorLowering

/-- The stage runs a kernel that takes unscaled values only. -/
def Stage.isNonlinear (stage : Stage) : Bool :=
  match stage.operation with
  | .power params => params.power != 1.0
  | _ => false

namespace Graph

/-- Going back from a tensor through the stages that write it and what they read, one comes to this
network input. -/
inductive StartsAt (g : Graph) (root : TensorId) : TensorId → Prop
  | source {tensor : Tensor} : g.tensors[root.index]? = some tensor → tensor.role = .input →
      StartsAt g root root
  | through {site : Site} : g.Hosts site → StartsAt g root site.inputId →
      StartsAt g root site.outputId

/-- The reader of a tensor that nothing else reads, if it runs a kernel that takes unscaled values
only. -/
def soleNonlinearReader? (g : Graph) (id : TensorId) : Option StageId :=
  match (g.tensors[id.index]?).map Tensor.consumers with
  | some [reader] => if (g.stages[reader.index]?).any Stage.isNonlinear then some reader else none
  | _ => none

/-- The scale that is configured for a network input. -/
def givenScale (inputScales : TensorMap Float32) (root : TensorId) : Float32 :=
  (inputScales.get? root).getD 1.0

/-- What holds of every configured scale, and of the one that stands in for it, holds of every given
one. -/
theorem givenScale_of_configured {p : Float32 → Prop} {inputScales : TensorMap Float32}
    (one : p 1.0)
    (configured : ∀ id scale, inputScales.get? id = some scale → p scale) (root : TensorId) :
    p (givenScale inputScales root) := by
  unfold givenScale
  cases given : inputScales.get? root with
  | none => exact one
  | some scale => exact configured root scale given

theorem givenScale_beq_self {inputScales : TensorMap Float32}
    (numbers : ∀ id scale, inputScales.get? id = some scale → scale.isNaN = false)
    (root : TensorId) : givenScale inputScales root == givenScale inputScales root :=
  givenScale_of_configured (p := fun scale => scale == scale) Ieee.one_beq_one
    (fun id scale given => Ieee.beq_self_of_isNaN_eq_false (numbers id scale given)) root

theorem givenScale_ne_zero {inputScales : TensorMap Float32}
    (nonzero : ∀ id scale, inputScales.get? id = some scale → ¬scale == 0) (root : TensorId) :
    ¬givenScale inputScales root == 0 :=
  givenScale_of_configured (p := fun scale => ¬scale == 0) (by decide) nonzero root

/-- The scale that a network input ends up with: a sole reader that takes unscaled values only has
its way. -/
def effectiveScale (g : Graph) (inputScales : TensorMap Float32) (root : TensorId) : Float32 :=
  if (g.soleNonlinearReader? root).isSome then 1.0 else givenScale inputScales root

variable {g : Graph} {root id : TensorId}

theorem StartsAt.cases_at (starts : g.StartsAt root id) :
    (root = id ∧ ∃ tensor, g.tensors[id.index]? = some tensor ∧ tensor.role = .input) ∨
      ∃ site, g.Hosts site ∧ site.outputId = id ∧ g.StartsAt root site.inputId := by
  cases starts with
  | source atRoot role => exact .inl ⟨rfl, _, atRoot, role⟩
  | through hosts starts => exact .inr ⟨_, hosts, rfl, starts⟩

theorem StartsAt.exists_input (starts : g.StartsAt root id) :
    ∃ tensor, g.tensors[root.index]? = some tensor ∧ tensor.role = .input := by
  induction starts with
  | source atRoot role => exact ⟨_, atRoot, role⟩
  | through _ _ ih => exact ih

/-- Nobody writes a network input. -/
theorem Hosts.ne_outputId (wired : g.Wired) {site : Site} (hosts : g.Hosts site) {tensor : Tensor}
    (atId : g.tensors[id.index]? = some tensor) (role : tensor.role = .input) :
    id ≠ site.outputId := by
  rintro rfl
  rw [hosts.output] at atId
  cases atId
  have written := hosts.producer_eq wired
  rw [wired.given hosts.output role] at written
  cases written

theorem StartsAt.eq_of_input (wired : g.Wired) (starts : g.StartsAt root id) {tensor : Tensor}
    (atId : g.tensors[id.index]? = some tensor) (role : tensor.role = .input) : root = id := by
  rcases starts.cases_at with ⟨same, -⟩ | ⟨site, hosts, written, -⟩
  · exact same
  · exact absurd written.symm (hosts.ne_outputId wired atId role)

theorem StartsAt.unique (wired : g.Wired) (starts : g.StartsAt root id) {root' : TensorId}
    (starts' : g.StartsAt root' id) : root = root' := by
  induction starts with
  | source atRoot role => exact (starts'.eq_of_input wired atRoot role).symm
  | @through site hosts starts ih =>
    rcases starts'.cases_at with ⟨-, tensor, atOutput, role⟩ | ⟨site', hosts', same, starts''⟩
    · exact absurd rfl (hosts.ne_outputId wired atOutput role)
    · obtain rfl := hosts.eq_of_outputId_eq hosts' wired same.symm
      exact ih starts''

theorem isSome_producer_of_validate (valid : g.validate = .ok ()) {tensor : Tensor}
    (atId : g.tensors[id.index]? = some tensor) (role : tensor.role ≠ .input) :
    ∃ writer, tensor.producer = some writer := by
  simp only [validate, bind_eq_ok] at valid
  obtain ⟨_, _, _, tensors, _⟩ := valid
  have known := mem_tensorIds.mpr (Array.getElem?_eq_some_iff.mp atId).1
  have checked := forM_eq_ok_iff.mp tensors id known
  simp only [checkTensor, bind_eq_ok, tensor_eq_ok_iff] at checked
  obtain ⟨tensor', atId', _, _, _, _, fits⟩ := checked
  rw [atId] at atId'
  cases atId'
  unfold checkRole at fits
  split at fits
  · rename_i input _
    exact absurd input role
  · rename_i input _
    exact absurd input role
  · split at fits <;> cases fits
  · exact ⟨_, by assumption⟩

/-- In a graph that passes the check of its structure every tensor comes from a network input. -/
theorem exists_startsAt (wired : g.Wired) (valid : g.validate = .ok ())
    (known : id.index < g.tensors.size) : ∃ root, g.StartsAt root id := by
  induction id using wired.induction_upstream with | step id upstream => ?_
  have atId := Array.getElem?_eq_getElem known
  by_cases role : g.tensors[id.index].role = .input
  · exact ⟨id, .source atId role⟩
  · obtain ⟨writer, written⟩ := isSome_producer_of_validate valid atId role
    obtain ⟨site, hosts, -, rfl⟩ := wired.site_of_producer_eq atId written
    obtain ⟨root, starts⟩ := upstream site hosts rfl (Array.getElem?_eq_some_iff.mp hosts.input).1
    exact ⟨root, .through hosts starts⟩

theorem soleNonlinearReader?_eq_some_iff {reader : StageId} :
    g.soleNonlinearReader? id = some reader ↔
      (∃ tensor, g.tensors[id.index]? = some tensor ∧ tensor.consumers = [reader]) ∧
        ∃ stage, g.stages[reader.index]? = some stage ∧ stage.isNonlinear := by
  unfold soleNonlinearReader?
  cases g.tensors[id.index]? with
  | none => simp
  | some tensor =>
    simp only [Option.map_some, Option.some.injEq, exists_eq_left']
    split
    · rename_i other only
      rw [Option.some.inj only]
      by_cases same : reader = other
      · subst same
        cases g.stages[reader.index]? <;> simp
      · simp [Ne.symm same]
    · rename_i many
      simp only [reduceCtorEq, false_iff, not_and]
      intro one
      exact absurd (congrArg some one) (many reader)

theorem effectiveScale_of_sole {inputScales : TensorMap Float32} {reader : StageId}
    (sole : g.soleNonlinearReader? id = some reader) : g.effectiveScale inputScales id = 1.0 := by
  simp [effectiveScale, sole]

theorem effectiveScale_of_none {inputScales : TensorMap Float32}
    (none : g.soleNonlinearReader? id = none) :
    g.effectiveScale inputScales id = givenScale inputScales id := by
  simp [effectiveScale, none]

/-- Whoever reads the input of a stage is its sole reader only if it is this stage. -/
theorem Hosts.of_soleNonlinearReader? (wired : g.Wired) {site : Site} (hosts : g.Hosts site)
    {reader : StageId} (sole : g.soleNonlinearReader? site.inputId = some reader) :
    reader = site.id ∧ site.stage.isNonlinear ∧ site.input.consumers = [site.id] := by
  obtain ⟨⟨tensor, atInput, one⟩, stage, atReader, nonlinear⟩ :=
    soleNonlinearReader?_eq_some_iff.mp sole
  rw [hosts.input] at atInput
  cases atInput
  have member := hosts.mem_consumers wired
  rw [one, List.mem_singleton] at member
  subst member
  rw [hosts.stage] at atReader
  cases atReader
  exact ⟨rfl, nonlinear, one⟩

theorem Hosts.soleNonlinearReader?_eq {site : Site} (hosts : g.Hosts site)
    (nonlinear : site.stage.isNonlinear) (one : site.input.consumers = [site.id]) :
    g.soleNonlinearReader? site.inputId = some site.id :=
  soleNonlinearReader?_eq_some_iff.mpr ⟨⟨_, hosts.input, one⟩, _, hosts.stage, nonlinear⟩

/-- A stage is the sole reader of its own input only. -/
theorem Hosts.inputId_of_sole (wired : g.Wired) {site : Site} (hosts : g.Hosts site)
    (sole : g.soleNonlinearReader? id = some site.id) : id = site.inputId := by
  obtain ⟨⟨tensor, atId, one⟩, -⟩ := soleNonlinearReader?_eq_some_iff.mp sole
  obtain ⟨stage, atStage, listed⟩ := (wired.readers atId).mp (one ▸ List.mem_singleton.mpr rfl)
  rw [hosts.stage] at atStage
  cases atStage
  simpa [hosts.inputs] using listed

theorem site_of_sole (wired : g.Wired) {reader : StageId}
    (sole : g.soleNonlinearReader? id = some reader) :
    ∃ site, g.Hosts site ∧ site.id = reader ∧ site.inputId = id ∧ site.stage.isNonlinear := by
  obtain ⟨⟨tensor, atId, one⟩, -⟩ := soleNonlinearReader?_eq_some_iff.mp sole
  have member : reader ∈ tensor.consumers := by simp [one]
  obtain ⟨site, hosts, rfl, rfl⟩ := wired.site_of_mem_consumers atId member
  exact ⟨site, hosts, rfl, rfl, (hosts.of_soleNonlinearReader? wired sole).2.1⟩

end Graph

end TensorLowering
