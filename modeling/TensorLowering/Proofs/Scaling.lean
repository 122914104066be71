import TensorLowering.Proofs.Chains
import TensorLowering.Proofs.Failures
import TensorLowering.Proofs.Ieee

namespace TensorLowering

open Attempt TensorLowering.Graph Ieee

namespace Graph

def rescale (g : Graph) (s : TensorId → Float32) : Graph :=
  g.mapTensors fun id tensor => { tensor with scale := s id }

def Site.rescale (site : Site) (s : TensorId → Float32) : Site :=
  site.view (fun id tensor => { tensor with scale := s id }) fun stage => stage

/-- The scale of a tensor; one of a tensor that the graph lacks. -/
def scale (g : Graph) (id : TensorId) : Float32 := (g.tensors[id.index]?).elim 1.0 Tensor.scale

variable {g : Graph} {s : TensorId → Float32}

theorem tensors_rescale (g : Graph) (s : TensorId → Float32) (id : TensorId) :
    (g.rescale s).tensors[id.index]? =
      (g.tensors[id.index]?).map fun tensor => { tensor with scale := s id } :=
  tensors_mapTensors ..

theorem hosts_rescale_iff {site : Site} :
    (g.rescale s).Hosts site ↔ ∃ before, g.Hosts before ∧ site = before.rescale s :=
  hosts_mapTensors_iff

theorem Hosts.rescale {site : Site} (hosts : g.Hosts site) (s : TensorId → Float32) :
    (g.rescale s).Hosts (site.rescale s) :=
  hosts_rescale_iff.mpr ⟨site, hosts, rfl⟩

theorem undecided_rescale (g : Graph) (s : TensorId → Float32) :
    (g.rescale s).undecided = g.undecided :=
  undecided_mapTensors fun _ _ => rfl

theorem rescale_scale (g : Graph) : g.rescale g.scale = g :=
  mapTensors_eq_self fun id tensor atId => by simp [scale, atId]

theorem modifyTensor_rescale (id : TensorId) (value : Float32) :
    (g.rescale s).modifyTensor id (fun tensor => { tensor with scale := value }) =
      g.rescale (Function.update s id value) :=
  modifyTensor_mapTensors (fun tensor => by simp) fun other tensor elsewhere => by simp [elsewhere]

end Graph

namespace Scale

variable {g : Graph} {s : TensorId → Float32}

/-- Gives some tensors a scale; one that is equal stays. -/
def adjust (s : TensorId → Float32) (ids : List TensorId) (value : Float32) : TensorId → Float32 :=
  fun id => if id ∈ ids then keepEqual (s id) value else s id

theorem adjust_of_mem {ids : List TensorId} {value : Float32} {id : TensorId} (member : id ∈ ids) :
    adjust s ids value id = keepEqual (s id) value := if_pos member

theorem adjust_of_notMem {ids : List TensorId} {value : Float32} {id : TensorId}
    (absent : id ∉ ids) : adjust s ids value id = s id := if_neg absent

/-- One tensor more. -/
theorem update_adjust {ids : List TensorId} {value : Float32} {id : TensorId} (fresh : id ∉ ids) :
    Function.update (adjust s ids value) id (keepEqual (s id) value) =
      adjust s (ids ++ [id]) value := by
  funext other
  by_cases here : other = id
  · subst here
    rw [Function.update_self, adjust_of_mem (by simp)]
  · rw [Function.update_of_ne here]
    by_cases member : other ∈ ids
    · rw [adjust_of_mem member, adjust_of_mem (by simp [member])]
    · rw [adjust_of_notMem member, adjust_of_notMem (by simp [member, here])]

theorem set_rescale {id : TensorId} (known : id.index < g.tensors.size) (value : Float32) :
    set id value (g.rescale s) =
      .ok (if s id == value then 0 else 1)
        (g.rescale (Function.update s id (keepEqual (s id) value))) := by
  have atId : (g.rescale s).tensor id = .ok { g.tensors[id.index] with scale := s id } := by
    rw [tensor_eq_ok_iff, tensors_rescale, Array.getElem?_eq_getElem known]
    rfl
  simp only [set, bind, EStateM.bind, ask, atId]
  by_cases same : s id == value
  · simp only [same, if_true, keepEqual, Function.update_eq_self]
    rfl
  · simp only [same, Bool.false_eq_true, if_false, keepEqual]
    exact congrArg (EStateM.Result.ok 1) (modifyTensor_rescale id value)

/-! ### One stage -/

/-- The scale on both sides of a stage once it runs: that of its input, or one if its kernel takes
unscaled values only. -/
def carried (s : TensorId → Float32) (site : Site) : Float32 :=
  if site.stage.isNonlinear then 1.0 else s site.inputId

theorem carried_of_linear {site : Site} (linear : site.stage.isNonlinear = false) :
    carried s site = s site.inputId := by
  simp [carried, linear]

theorem carried_of_nonlinear {site : Site} (nonlinear : site.stage.isNonlinear) :
    carried s site = 1.0 := by
  simp [carried, nonlinear]

/-- The scales once a stage has run. -/
def advance (s : TensorId → Float32) (site : Site) : TensorId → Float32 :=
  adjust s [site.inputId, site.outputId] (carried s site)

/-- The input has the scale that the stage asks for, or is a network input that may be rescaled
since nothing else reads it. -/
def Takes (s : TensorId → Float32) (site : Site) : Prop :=
  s site.inputId == carried s site ∨
    site.input.role = .input ∧ site.input.consumers = [site.id]

theorem takes_of_linear {site : Site} (linear : site.stage.isNonlinear = false)
    (number : s site.inputId == s site.inputId) : Takes s site := by
  refine .inl ?_
  rwa [carried_of_linear linear]

/-- The stage succeeded: it carried its scale to both sides, left all other tensors alone, and
counted nothing exactly if both sides had the scale before. -/
structure Advanced (g : Graph) (s : TensorId → Float32) (site : Site) (count : Nat) (after : Graph) :
    Prop where
  takes : Takes s site
  scales : after = g.rescale (advance s site)
  counted : count = 0 ↔ s site.inputId == carried s site ∧ s site.outputId == carried s site

/-- The output is always in an answer, and the input is unless the stage keeps quiet about it. -/
theorem mem_answer {inputId outputId : TensorId} (apart : inputId ≠ outputId) (quiet : Prop)
    [Decidable quiet] (value : Float32) :
    let answer := ((if quiet then TensorMap.empty else TensorMap.empty.insert inputId value).insert
      outputId value).toList
    (outputId, value) ∈ answer ∧ (quiet ∨ (inputId, value) ∈ answer) := by
  by_cases silent : quiet
  · simp [silent, TensorMap.mem_toList, TensorMap.get?_insert]
  · simp [silent, TensorMap.mem_toList, TensorMap.get?_insert, apart]

/-- What a stage answers is one scale, the one it carries, for its output and for its input if that
has to change. -/
theorem scaleAnswer_carried (wired : g.Wired) {site : Site} (hosts : g.Hosts site)
    (executed : site.stage.category ≠ .special) (number : s site.inputId == s site.inputId)
    {step : ScaleStep} (checks : step = .check → s site.inputId = 1.0) :
    ∃ answer : TensorMap Float32,
      (g.rescale s).scaleAnswer site.id (TensorMap.empty.insert site.inputId (s site.inputId)) step =
        .ok answer ∧
      (∀ entry ∈ answer.toList,
        entry = (site.inputId, carried s site) ∨ entry = (site.outputId, carried s site)) ∧
      (site.outputId, carried s site) ∈ answer.toList ∧
      (s site.inputId == carried s site ∨ (site.inputId, carried s site) ∈ answer.toList) := by
  have found : (g.rescale s).site site.id = .ok (site.rescale s) := (hosts.rescale s).site_eq
  have stage : (site.rescale s).stage = site.stage := rfl
  have asked : ((TensorMap.empty.insert site.inputId (s site.inputId)).get? site.inputId).getD 1.0 =
      s site.inputId := by
    simp [TensorMap.get?_insert]
  have apart := hosts.inputId_ne_outputId wired
  have passed : (if step = .check then 1.0 else s site.inputId) = s site.inputId := by
    split
    · exact (checks (by assumption)).symm
    · rfl
  cases operation : site.stage.operation with
  | expand offset =>
    exact absurd (by simp [Stage.category, Stage.kind, operation, Operation.kind, Kind.category])
      executed
  | copy demands mode =>
    have linear : carried s site = s site.inputId :=
      carried_of_linear (by simp [Stage.isNonlinear, operation])
    obtain ⟨output, input⟩ := mem_answer apart (step = .propagate) (carried s site)
    refine ⟨_, ?_, fun _ => eq_of_mem_answer, output, input.imp_left fun _ => linear ▸ number⟩
    simp only [Graph.scaleAnswer, found, bind, Except.bind, Site.scaleAnswer, stage, operation]
    rw [show (site.rescale s).inputId = site.inputId from rfl, asked, passed, linear]
    rfl
  | power params =>
    have settled : (if step = .check then 1.0
        else if params.commutesWithScale then s site.inputId else 1.0) = carried s site := by
      by_cases linear : params.power == 1.0
      · simpa [carried, Stage.isNonlinear, operation, PowerParams.commutesWithScale, linear, bne]
          using passed
      · simp [carried, Stage.isNonlinear, operation, PowerParams.commutesWithScale, linear, bne]
    obtain ⟨output, input⟩ := mem_answer apart
      ((decide (step = .propagate) && carried s site == s site.inputId) = true) (carried s site)
    refine ⟨_, ?_, fun _ => eq_of_mem_answer, output,
      input.imp_left fun quiet => BEq.symm (Bool.and_eq_true_iff.mp quiet).2⟩
    simp only [Graph.scaleAnswer, found, bind, Except.bind, Site.scaleAnswer, stage, operation]
    rw [show (site.rescale s).inputId = site.inputId from rfl, asked, settled]
    rfl

section

variable {site : Site} {ids : List TensorId}

/-- A stage that asks its input for its scale gets it if the input has this scale or is a network
input that nothing else reads. -/
theorem settle_input_rescale (hosts : g.Hosts site) (fresh : site.inputId ∉ ids) :
    (settle site.id (TensorMap.empty.insert site.inputId (s site.inputId))
      (site.inputId, carried s site)).Ensures (g.rescale (adjust s ids (carried s site)))
      (fun count after => Takes s site ∧
        after = g.rescale (adjust s (ids ++ [site.inputId]) (carried s site)) ∧
          (count = 0 ↔ s site.inputId == carried s site))
      fun error _ => Mismatch error ∧ ¬Takes s site := by
  have current : (TensorMap.empty.insert site.inputId (s site.inputId)).get? site.inputId =
      some (s site.inputId) := by
    simp [TensorMap.get?_insert]
  have hosts' := hosts.rescale (adjust s ids (carried s site))
  have known := (Array.getElem?_eq_some_iff.mp hosts.input).1
  simp only [settle, current]
  rw [ensures_ite]
  refine ⟨fun differs => ?_, fun agrees => ?_⟩
  · have differs : ¬s site.inputId == carried s site := by simpa [bne] using differs
    refine .ask_bind (tensor_eq_ok_iff.mpr hosts'.input) ?_
    rw [ensures_ite]
    refine ⟨fun free => ?_, fun bound => ?_⟩
    · unfold Ensures
      simp only [bind, EStateM.bind, set_rescale known, adjust_of_notMem fresh]
      exact ⟨.inr free, by rw [update_adjust fresh], by simp [differs]⟩
    · refine .ask_bind (stage_eq_ok_iff.mpr hosts'.stage) ⟨⟨_, _, _, _, rfl⟩, ?_⟩
      rintro (takes | free)
      · exact differs takes
      · exact bound free
  · have agrees : s site.inputId == carried s site := by simpa [bne] using agrees
    refine ⟨.inl agrees, ?_, by simp [agrees]⟩
    rw [← update_adjust fresh]
    nth_rewrite 1 [← Function.update_eq_self site.inputId (adjust s ids (carried s site))]
    rw [adjust_of_notMem fresh, keepEqual, if_pos agrees]

theorem settle_output_rescale (hosts : g.Hosts site) (wired : g.Wired) (fresh : site.outputId ∉ ids) :
    (settle site.id (TensorMap.empty.insert site.inputId (s site.inputId))
      (site.outputId, carried s site)).Ensures (g.rescale (adjust s ids (carried s site)))
      (fun count after => after = g.rescale (adjust s (ids ++ [site.outputId]) (carried s site)) ∧
        (count = 0 ↔ s site.outputId == carried s site))
      fun _ _ => False := by
  have apart := hosts.inputId_ne_outputId wired
  have absent : (TensorMap.empty.insert site.inputId (s site.inputId)).get? site.outputId =
      none := by
    simp [TensorMap.get?_insert, apart.symm]
  have known := (Array.getElem?_eq_some_iff.mp hosts.output).1
  unfold Ensures
  simp only [settle, absent, set_rescale known, adjust_of_notMem fresh, update_adjust fresh, true_and]
  split <;> simp_all

/-- Settling a whole answer of a stage. An input that the answer says nothing about has the scale
already. -/
theorem answer_rescale (wired : g.Wired) (hosts : g.Hosts site) {answer : TensorMap Float32}
    (own : ∀ entry ∈ answer.toList,
      entry = (site.inputId, carried s site) ∨ entry = (site.outputId, carried s site))
    (output : (site.outputId, carried s site) ∈ answer.toList)
    (input : s site.inputId == carried s site ∨ (site.inputId, carried s site) ∈ answer.toList) :
    (sweep (settle site.id (TensorMap.empty.insert site.inputId (s site.inputId)))
      answer.toList).Ensures (g.rescale s) (Advanced g s site)
      fun error _ => Mismatch error ∧ ¬Takes s site := by
  refine (Ensures.sweep (fun treated count now =>
    (site.inputId ∈ treated.map Prod.fst → Takes s site) ∧
      now = g.rescale (adjust s (treated.map Prod.fst) (carried s site)) ∧
        (count = 0 ↔ ∀ id ∈ treated.map Prod.fst, s id == carried s site)) ?_ ?_).mono ?_ fun _ _ => id
  · refine ⟨by simp, congrArg _ (funext fun id => ?_), by simp⟩
    exact (adjust_of_notMem (by simp)).symm
  · intro treated entry later count now split reached
    obtain ⟨takes, rfl, counted⟩ := reached
    have fresh : entry.1 ∉ treated.map Prod.fst := fun member => by
      obtain ⟨other, listed, same⟩ := List.mem_map.mp member
      have sorted := answer.sorted
      rw [split, List.pairwise_append] at sorted
      have less := sorted.2.2 other listed entry (List.mem_cons_self ..)
      rw [same] at less
      exact Nat.lt_irrefl _ less
    have total {here : Nat} (counted' : here = 0 ↔ s entry.1 == carried s site) :
        count + here = 0 ↔ ∀ id ∈ (treated ++ [entry]).map Prod.fst, s id == carried s site := by
      rw [Nat.add_eq_zero_iff, counted, counted']
      simp [or_imp, forall_and]
    rcases own entry (by simp [split]) with rfl | rfl
    · refine (settle_input_rescale hosts fresh).mono ?_ fun _ _ => id
      intro here after found
      obtain ⟨takes', rfl, counted'⟩ := found
      exact ⟨fun _ => takes', by simp, total counted'⟩
    · refine (settle_output_rescale hosts wired fresh).mono ?_ fun _ _ => False.elim
      intro here after found
      obtain ⟨rfl, counted'⟩ := found
      refine ⟨fun member => takes ?_, by simp, total counted'⟩
      simpa [hosts.inputId_ne_outputId wired] using member
  · intro count after reached
    obtain ⟨takes, rfl, counted⟩ := reached
    have atOutput : site.outputId ∈ answer.toList.map Prod.fst := List.mem_map_of_mem output
    have only (id : TensorId) (treated : id ∈ answer.toList.map Prod.fst) :
        id = site.inputId ∨ id = site.outputId := by
      obtain ⟨entry, listed, rfl⟩ := List.mem_map.mp treated
      exact (own entry listed).imp (congrArg Prod.fst) (congrArg Prod.fst)
    refine ⟨?_, congrArg _ (funext fun id => ?_), counted.trans ⟨fun all => ?_, fun both id treated => ?_⟩⟩
    · rcases input with agrees | asked
      · exact .inl agrees
      · exact takes (List.mem_map_of_mem asked)
    · by_cases treated : id ∈ answer.toList.map Prod.fst
      · rw [advance, adjust_of_mem treated, adjust_of_mem (by simpa using only id treated)]
      · rw [adjust_of_notMem treated]
        by_cases here : id = site.inputId
        · subst here
          have agrees := input.resolve_right fun asked => treated (List.mem_map_of_mem asked)
          rw [advance, adjust_of_mem (by simp), keepEqual, if_pos agrees]
        · have there : id ≠ site.outputId := fun same => treated (same ▸ atOutput)
          rw [advance, adjust_of_notMem (by simp [here, there])]
    · exact ⟨input.elim (fun agrees => agrees) fun asked => all _ (List.mem_map_of_mem asked),
        all _ atOutput⟩
    · rcases only id treated with rfl | rfl
      · exact both.1
      · exact both.2

end

theorem eq_one_of_check {inputScales current : TensorMap Float32} {id : TensorId} {value : Float32}
    (found : current.get? id = some value) (checks : g.selectStep inputScales current = .check) :
    value = 1.0 := by
  unfold selectStep at checks
  simp only at checks
  split at checks
  · cases checks
  · split at checks
    · rename_i all
      exact eq_one_of_beq (List.all_eq_true.mp all (id, value) (TensorMap.mem_toList.mpr found))
    · cases checks

theorem isNonlinear_of_special {stage : Stage} (special : stage.category = .special) :
    stage.isNonlinear = false := by
  unfold Stage.isNonlinear
  cases operation : stage.operation with
  | power params =>
    simp [Stage.category, Stage.kind, operation, Operation.kind, Kind.category] at special
  | _ => rfl

/-- A stage that nothing executes hands the scale of its input on. -/
theorem handOn_rescale {site : Site} (hosts : g.Hosts site)
    (linear : site.stage.isNonlinear = false) (number : s site.inputId == s site.inputId) :
    (sweep (set · (s site.inputId)) [site.outputId]).Ensures (g.rescale s) (Advanced g s site)
      fun _ _ => False := by
  have known := (Array.getElem?_eq_some_iff.mp hosts.output).1
  have same := carried_of_linear (s := s) linear
  rw [sweep_singleton]
  unfold Ensures
  rw [set_rescale known]
  refine ⟨takes_of_linear linear number, congrArg _ (funext fun id => ?_), ?_⟩
  · by_cases output : id = site.outputId
    · subst output
      rw [Function.update_self, advance, adjust_of_mem (by simp), same]
    · rw [Function.update_of_ne output]
      by_cases input : id = site.inputId
      · subst input
        rw [advance, adjust_of_mem (by simp), same, keepEqual_self]
      · rw [advance, adjust_of_notMem (by simp [input, output])]
  · rw [same]
    split <;> simp_all

/-- A stage carries its scale to both sides and leaves all other tensors alone. It fails exactly if
its input cannot take the scale. -/
theorem propagateThrough_rescale (wired : g.Wired) {site : Site} (hosts : g.Hosts site)
    (number : s site.inputId == s site.inputId) (inputScales : TensorMap Float32) :
    (propagateThrough inputScales site.id).Ensures (g.rescale s) (Advanced g s site)
      fun error _ => Mismatch error ∧ ¬Takes s site := by
  have hosts' := hosts.rescale s
  have atInput : (g.rescale s).tensor site.inputId = .ok { site.input with scale := s site.inputId } :=
    tensor_eq_ok_iff.mpr hosts'.input
  have atStage : (g.rescale s).stages[site.id.index]? = some site.stage := hosts.stage
  have first : (g.rescale s).firstScale [site.inputId] = .ok (s site.inputId) := by
    simp only [firstScale, atInput, bind, Except.bind]
    rfl
  have current : (g.rescale s).currentScales [site.inputId] =
      .ok (TensorMap.empty.insert site.inputId (s site.inputId)) := by
    simp only [currentScales, atInput, bind, Except.bind]
    rfl
  refine .ask_bind (stage_eq_ok_iff.mpr atStage) ?_
  rw [ensures_ite, hosts.inputs, hosts.outputs]
  refine ⟨fun special => .ask_bind first ?_, fun executed => .ask_bind current ?_⟩
  · exact (handOn_rescale hosts (isNonlinear_of_special special) number).mono (fun _ _ => id)
      fun _ _ => False.elim
  · rw [ensures_bind, ensures_get]
    have entered : (TensorMap.empty.insert site.inputId (s site.inputId)).get? site.inputId =
        some (s site.inputId) := by
      simp [TensorMap.get?_insert]
    obtain ⟨answer, answered, own, output, input⟩ :=
      scaleAnswer_carried wired hosts executed number (eq_one_of_check entered)
    exact .ask_bind answered (answer_rescale wired hosts own output input)

end Scale

end TensorLowering
