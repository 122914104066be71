import Mathlib.Algebra.Order.BigOperators.Group.List
import Mathlib.Algebra.Order.Group.Nat
import TensorLowering.Graph.Wiring
import TensorLowering.Proofs.Attempt

namespace TensorLowering

/-- The wiring of a graph agrees from both sides, every stage has the tensors that its kind asks
for, and some depth of the tensors grows along every stage, so that data does not flow in
circles. -/
structure Graph.Wired (g : Graph) : Prop where
  arity : ∀ {id : StageId} {stage : Stage}, g.stages[id.index]? = some stage →
    stage.inputs.length = stage.kind.arity.inputs ∧ stage.outputs.length = stage.kind.arity.outputs
  known : ∀ {id : StageId} {stage : Stage} {tensor : TensorId},
    g.stages[id.index]? = some stage → tensor ∈ stage.inputs ++ stage.outputs →
      tensor.index < g.tensors.size
  readers : ∀ {id : TensorId} {tensor : Tensor} {reader : StageId},
    g.tensors[id.index]? = some tensor →
      (reader ∈ tensor.consumers ↔
        ∃ stage, g.stages[reader.index]? = some stage ∧ id ∈ stage.inputs)
  sorted : ∀ {id : TensorId} {tensor : Tensor}, g.tensors[id.index]? = some tensor →
    tensor.consumers.Pairwise (·.index < ·.index)
  writer : ∀ {id : TensorId} {tensor : Tensor} {writer : StageId},
    g.tensors[id.index]? = some tensor →
      (tensor.producer = some writer ↔
        ∃ stage, g.stages[writer.index]? = some stage ∧ id ∈ stage.outputs)
  given : ∀ {id : TensorId} {tensor : Tensor}, g.tensors[id.index]? = some tensor →
    tensor.role = .input → tensor.producer = none
  acyclic : ∃ depth : TensorId → Nat, ∀ {id : StageId} {stage : Stage},
    g.stages[id.index]? = some stage →
      ∀ input ∈ stage.inputs, ∀ output ∈ stage.outputs, depth input < depth output

/-- The site is a stage of the graph with what it is wired to. -/
structure Graph.Hosts (g : Graph) (site : Graph.Site) : Prop where
  stage : g.stages[site.id.index]? = some site.stage
  inputs : site.stage.inputs = [site.inputId]
  outputs : site.stage.outputs = [site.outputId]
  input : g.tensors[site.inputId.index]? = some site.input
  output : g.tensors[site.outputId.index]? = some site.output

/-- The one stage reads what the other writes. -/
def Graph.Feeds (g : Graph) (writer reader : StageId) : Prop :=
  ∃ stage id tensor, g.stages[reader.index]? = some stage ∧ id ∈ stage.inputs ∧
    g.tensors[id.index]? = some tensor ∧ tensor.producer = some writer

theorem Kind.arity_eq (kind : Kind) : kind.arity = ⟨1, 1⟩ := by
  cases kind <;> rfl

theorem Stage.checkArity_eq_ok_iff {stage : Stage} {result : Unit} :
    stage.checkArity = .ok result ↔
      stage.inputs.length = stage.kind.arity.inputs ∧
        stage.outputs.length = stage.kind.arity.outputs := by
  unfold Stage.checkArity
  split <;> simp_all [throw, throwThe, MonadExceptOf.throw]

namespace Graph

variable {g : Graph}

theorem site_eq_ok_iff {id : StageId} {site : Site} :
    g.site id = .ok site ↔ site.id = id ∧ g.Hosts site := by
  simp only [Graph.site, bind_eq_ok, stage_eq_ok_iff, Stage.checkArity_eq_ok_iff, Kind.arity_eq]
  constructor
  · intro given
    obtain ⟨stage, atId, _, ⟨oneInput, oneOutput⟩, found⟩ := given
    obtain ⟨inputId, inputs⟩ := List.length_eq_one_iff.mp oneInput
    obtain ⟨outputId, outputs⟩ := List.length_eq_one_iff.mp oneOutput
    simp only [inputs, outputs, bind_eq_ok, tensor_eq_ok_iff] at found
    obtain ⟨input, atInput, output, atOutput, same⟩ := found
    cases same
    exact ⟨rfl, atId, inputs, outputs, atInput, atOutput⟩
  · intro found
    obtain ⟨rfl, hosts⟩ := found
    refine ⟨site.stage, hosts.stage, (), ⟨by simp [hosts.inputs], by simp [hosts.outputs]⟩, ?_⟩
    simp only [hosts.inputs, hosts.outputs, bind_eq_ok, tensor_eq_ok_iff]
    exact ⟨_, hosts.input, _, hosts.output, rfl⟩

instance (site : Site) : Decidable (g.Hosts site) :=
  decidable_of_iff
    (g.stages[site.id.index]? = some site.stage ∧ site.stage.inputs = [site.inputId] ∧
      site.stage.outputs = [site.outputId] ∧ g.tensors[site.inputId.index]? = some site.input ∧
      g.tensors[site.outputId.index]? = some site.output)
    ⟨fun ⟨stage, inputs, outputs, input, output⟩ => ⟨stage, inputs, outputs, input, output⟩,
      fun hosts => ⟨hosts.stage, hosts.inputs, hosts.outputs, hosts.input, hosts.output⟩⟩

theorem Hosts.site_eq {site : Site} (hosts : g.Hosts site) : g.site site.id = .ok site :=
  site_eq_ok_iff.mpr ⟨rfl, hosts⟩

theorem Hosts.unique {site other : Site} (hosts : g.Hosts site) (hosts' : g.Hosts other)
    (same : site.id = other.id) : site = other := by
  have found := hosts.site_eq
  rw [same, hosts'.site_eq] at found
  exact (Except.ok.inj found).symm

/-- The site with changed tensors and a changed stage. -/
def Site.view (site : Site) (tensor : TensorId → Tensor → Tensor) (stage : Stage → Stage) : Site :=
  ⟨site.id, stage site.stage, site.inputId, tensor site.inputId site.input, site.outputId,
    tensor site.outputId site.output⟩

/-- A graph whose tensors and stages are changed one by one hosts the changed sites, as long as the
stages keep what they are wired to. -/
theorem hosts_iff_view {h : Graph} {tensor : TensorId → Tensor → Tensor} {stage : Stage → Stage}
    (tensors : ∀ id : TensorId, h.tensors[id.index]? = (g.tensors[id.index]?).map (tensor id))
    (stages : ∀ id : StageId, h.stages[id.index]? = (g.stages[id.index]?).map stage)
    (inputs : ∀ s, (stage s).inputs = s.inputs) (outputs : ∀ s, (stage s).outputs = s.outputs)
    {site : Site} : h.Hosts site ↔ ∃ before, g.Hosts before ∧ site = before.view tensor stage := by
  constructor
  · intro hosts
    have atStage := hosts.stage
    have atInput := hosts.input
    have atOutput := hosts.output
    rw [stages, Option.map_eq_some_iff] at atStage
    rw [tensors, Option.map_eq_some_iff] at atInput atOutput
    obtain ⟨before, foundStage, sameStage⟩ := atStage
    obtain ⟨input, foundInput, sameInput⟩ := atInput
    obtain ⟨output, foundOutput, sameOutput⟩ := atOutput
    refine ⟨⟨site.id, before, site.inputId, input, site.outputId, output⟩,
      ⟨foundStage, ?_, ?_, foundInput, foundOutput⟩, ?_⟩
    · rw [← inputs before, sameStage, hosts.inputs]
    · rw [← outputs before, sameStage, hosts.outputs]
    · simp only [Site.view, sameStage, sameInput, sameOutput]
  · intro found
    obtain ⟨before, hosts, rfl⟩ := found
    exact ⟨by simp [Site.view, stages, hosts.stage], by simp [Site.view, inputs, hosts.inputs],
      by simp [Site.view, outputs, hosts.outputs], by simp [Site.view, tensors, hosts.input],
      by simp [Site.view, tensors, hosts.output]⟩

theorem hosts_modifyTensor_iff {id : TensorId} {change : Tensor → Tensor} {site : Site} :
    (g.modifyTensor id change).Hosts site ↔ ∃ before, g.Hosts before ∧
      site = before.view (fun other tensor => if other = id then change tensor else tensor)
        fun stage => stage := by
  refine hosts_iff_view (fun other => ?_) (by simp [modifyTensor]) (fun _ => rfl) fun _ => rfl
  rw [tensors_modifyTensor]
  by_cases here : other = id <;> simp [here]

theorem Wired.exists_tensor (wired : g.Wired) {id : StageId} {stage : Stage} {tensorId : TensorId}
    (atId : g.stages[id.index]? = some stage) (member : tensorId ∈ stage.inputs ++ stage.outputs) :
    ∃ tensor, g.tensors[tensorId.index]? = some tensor :=
  ⟨_, Array.getElem?_eq_getElem (wired.known atId member)⟩

theorem Wired.exists_site (wired : g.Wired) {id : StageId} {stage : Stage}
    (atId : g.stages[id.index]? = some stage) :
    ∃ site, g.Hosts site ∧ site.id = id ∧ site.stage = stage := by
  obtain ⟨oneInput, oneOutput⟩ := wired.arity atId
  rw [Kind.arity_eq] at oneInput oneOutput
  obtain ⟨inputId, inputs⟩ := List.length_eq_one_iff.mp oneInput
  obtain ⟨outputId, outputs⟩ := List.length_eq_one_iff.mp oneOutput
  obtain ⟨input, atInput⟩ := wired.exists_tensor atId (by simp [inputs] : inputId ∈ _)
  obtain ⟨output, atOutput⟩ := wired.exists_tensor atId (by simp [outputs] : outputId ∈ _)
  exact ⟨⟨id, stage, inputId, input, outputId, output⟩,
    ⟨atId, inputs, outputs, atInput, atOutput⟩, rfl, rfl⟩

theorem mem_stages_iff {stage : Stage} :
    stage ∈ g.stages ↔ ∃ id : StageId, g.stages[id.index]? = some stage := by
  rw [Array.mem_iff_getElem?]
  exact ⟨fun ⟨place, atPlace⟩ => ⟨⟨place⟩, atPlace⟩, fun ⟨id, atId⟩ => ⟨id.index, atId⟩⟩

theorem Wired.site_of_mem (wired : g.Wired) {id : StageId} (member : id ∈ g.stageIds) :
    ∃ site, g.Hosts site ∧ site.id = id := by
  obtain ⟨site, hosts, atId, _⟩ :=
    wired.exists_site (Array.getElem?_eq_getElem (mem_stageIds.mp member))
  exact ⟨site, hosts, atId⟩

theorem Wired.site_of_mem_consumers (wired : g.Wired) {id : TensorId} {tensor : Tensor}
    (atId : g.tensors[id.index]? = some tensor) {reader : StageId}
    (member : reader ∈ tensor.consumers) :
    ∃ site, g.Hosts site ∧ site.id = reader ∧ site.inputId = id := by
  obtain ⟨stage, atReader, listed⟩ := (wired.readers atId).mp member
  obtain ⟨site, hosts, here, rfl⟩ := wired.exists_site atReader
  rw [hosts.inputs, List.mem_singleton] at listed
  exact ⟨site, hosts, here, listed.symm⟩

theorem Wired.site_of_producer_eq (wired : g.Wired) {id : TensorId} {tensor : Tensor}
    (atId : g.tensors[id.index]? = some tensor) {writer : StageId}
    (written : tensor.producer = some writer) :
    ∃ site, g.Hosts site ∧ site.id = writer ∧ site.outputId = id := by
  obtain ⟨stage, atWriter, listed⟩ := (wired.writer atId).mp written
  obtain ⟨site, hosts, here, rfl⟩ := wired.exists_site atWriter
  rw [hosts.outputs, List.mem_singleton] at listed
  exact ⟨site, hosts, here, listed.symm⟩

theorem Wired.index_lt_of_mem_consumers (wired : g.Wired) {id : TensorId} {tensor : Tensor}
    (atId : g.tensors[id.index]? = some tensor) {reader : StageId}
    (member : reader ∈ tensor.consumers) : reader.index < g.stages.size := by
  obtain ⟨stage, atReader, _⟩ := (wired.readers atId).mp member
  exact (Array.getElem?_eq_some_iff.mp atReader).1

/-- The next handle is nobody's reader yet. -/
theorem Wired.not_mem_consumers (wired : g.Wired) {id : TensorId} {tensor : Tensor}
    (atId : g.tensors[id.index]? = some tensor) : ⟨g.stages.size⟩ ∉ tensor.consumers :=
  fun member => Nat.lt_irrefl _ (wired.index_lt_of_mem_consumers atId member)

theorem Hosts.mem_stageIds {site : Site} (hosts : g.Hosts site) : site.id ∈ g.stageIds :=
  Graph.mem_stageIds.mpr (Array.getElem?_eq_some_iff.mp hosts.stage).1

theorem Hosts.mem_consumers {site : Site} (hosts : g.Hosts site) (wired : g.Wired) :
    site.id ∈ site.input.consumers :=
  (wired.readers hosts.input).mpr ⟨_, hosts.stage, by simp [hosts.inputs]⟩

theorem Hosts.producer_eq {site : Site} (hosts : g.Hosts site) (wired : g.Wired) :
    site.output.producer = some site.id :=
  (wired.writer hosts.output).mpr ⟨_, hosts.stage, by simp [hosts.outputs]⟩

theorem Hosts.inputId_ne_outputId {site : Site} (hosts : g.Hosts site) (wired : g.Wired) :
    site.inputId ≠ site.outputId := by
  obtain ⟨depth, grows⟩ := wired.acyclic
  have deeper := grows hosts.stage site.inputId (by simp [hosts.inputs]) site.outputId
    (by simp [hosts.outputs])
  intro same
  rw [same] at deeper
  exact Nat.lt_irrefl _ deeper

theorem Hosts.id_eq_of_outputId_eq {site other : Site} (hosts : g.Hosts site)
    (hosts' : g.Hosts other) (wired : g.Wired) (same : site.outputId = other.outputId) :
    site.id = other.id := by
  have atOutput := hosts.output
  rw [same, hosts'.output] at atOutput
  have written := hosts.producer_eq wired
  rw [← Option.some.inj atOutput, hosts'.producer_eq wired] at written
  exact (Option.some.inj written).symm

/-- Stages are known by what they write. -/
theorem Hosts.eq_of_outputId_eq {site other : Site} (hosts : g.Hosts site)
    (hosts' : g.Hosts other) (wired : g.Wired) (same : site.outputId = other.outputId) :
    site = other :=
  hosts.unique hosts' (hosts.id_eq_of_outputId_eq hosts' wired same)

theorem Hosts.feeds_iff {site : Site} (hosts : g.Hosts site) {writer : StageId} :
    g.Feeds writer site.id ↔ site.input.producer = some writer := by
  constructor
  · intro found
    obtain ⟨stage, id, tensor, atId, member, atTensor, written⟩ := found
    rw [hosts.stage] at atId
    cases atId
    rw [hosts.inputs, List.mem_singleton] at member
    subst member
    rw [hosts.input] at atTensor
    cases atTensor
    exact written
  · intro written
    exact ⟨_, _, _, hosts.stage, by simp [hosts.inputs], hosts.input, written⟩

/-- A reader of what a stage writes is fed by it, and the other way round. -/
theorem Hosts.feeds_iff_inputId {site reader : Site} (hosts : g.Hosts site)
    (hosts' : g.Hosts reader) (wired : g.Wired) :
    g.Feeds site.id reader.id ↔ reader.inputId = site.outputId := by
  rw [hosts'.feeds_iff]
  constructor
  · intro written
    obtain ⟨stage, atId, member⟩ := (wired.writer hosts'.input).mp written
    rw [hosts.stage] at atId
    cases atId
    simpa [hosts.outputs] using member
  · intro same
    have atInput := hosts'.input
    rw [same, hosts.output] at atInput
    rw [← Option.some.inj atInput]
    exact hosts.producer_eq wired

theorem Hosts.mem_output_consumers_iff {site : Site} (hosts : g.Hosts site) (wired : g.Wired)
    {reader : StageId} : reader ∈ site.output.consumers ↔ g.Feeds site.id reader := by
  constructor
  · intro member
    obtain ⟨other, hosts', rfl, read⟩ := wired.site_of_mem_consumers hosts.output member
    exact (hosts.feeds_iff_inputId hosts' wired).mpr read
  · rintro ⟨stage, id, tensor, atReader, read, atTensor, written⟩
    obtain ⟨writer, hosts', same, rfl⟩ := wired.site_of_producer_eq atTensor written
    obtain rfl := hosts'.unique hosts same
    exact (wired.readers hosts'.output).mpr ⟨stage, atReader, read⟩

/-- What holds of a tensor if it holds of the input of the stage that writes it holds of every
tensor. The induction is on the depth of the tensor. -/
theorem Wired.induction_upstream (wired : g.Wired) {property : TensorId → Prop}
    (step : ∀ id, (∀ site, g.Hosts site → site.outputId = id → property site.inputId) →
      property id) (id : TensorId) : property id := by
  obtain ⟨depth, deeper⟩ := wired.acyclic
  induction bound : depth id using Nat.strong_induction_on generalizing id with
  | h n ih =>
    subst bound
    refine step id ?_
    rintro site hosts rfl
    exact ih _ (deeper hosts.stage _ (by simp [hosts.inputs]) _ (by simp [hosts.outputs])) _ rfl

/-- Stages have a rank that grows from writer to reader. -/
theorem Wired.exists_rank (wired : g.Wired) :
    ∃ rank : StageId → Nat, ∀ {writer reader : StageId}, g.Feeds writer reader →
      rank writer < rank reader := by
  obtain ⟨depth, grows⟩ := wired.acyclic
  refine ⟨fun id => ((g.stages[id.index]?).bind (·.outputs.head?)).elim 0 depth, ?_⟩
  intro writer reader found
  obtain ⟨stage, id, tensor, atReader, read, atTensor, written⟩ := found
  obtain ⟨site, hosts, rfl, rfl⟩ := wired.exists_site atReader
  obtain ⟨site', hosts', rfl, rfl⟩ := wired.site_of_producer_eq atTensor written
  simpa [hosts.stage, hosts'.stage, hosts.outputs, hosts'.outputs] using
    grows hosts.stage _ read site.outputId (by simp [hosts.outputs])

/-! ### Wiring a new stage -/

theorem mem_successors (wired : g.Wired) {id next : TensorId} (known : id.index < g.tensors.size) :
    next ∈ g.successors id ↔
      ∃ (reader : StageId) (stage : Stage), g.stages[reader.index]? = some stage ∧
        id ∈ stage.inputs ∧ next ∈ stage.outputs := by
  have atId := Array.getElem?_eq_getElem known
  simp only [successors, atId, List.mem_flatMap, wired.readers atId]
  constructor
  · intro found
    obtain ⟨reader, ⟨stage, atReader, read⟩, written⟩ := found
    rw [atReader] at written
    exact ⟨reader, stage, atReader, read, written⟩
  · intro found
    obtain ⟨reader, stage, atReader, read, written⟩ := found
    exact ⟨reader, ⟨stage, atReader, read⟩, by simpa only [atReader] using written⟩

/-- A search that finds nothing has seen a region that holds the queue, that no flow leaves and
that no target lies in. `seen` holds what was taken from the queue before. -/
theorem exists_region_of_search_eq_none {targets queue fresh : List TensorId}
    (failed : g.search targets queue fresh = none) (seen : TensorId → Prop)
    (closed : ∀ id, seen id → ∀ next ∈ g.successors id, seen next ∨ next ∈ queue)
    (missed : ∀ id, seen id → id ∉ targets)
    (total : ∀ id next, next ∈ g.successors id → seen next ∨ next ∈ queue ∨ next ∈ fresh) :
    ∃ region : TensorId → Prop, (∀ id, seen id → region id) ∧ (∀ id ∈ queue, region id) ∧
      (∀ id, region id → ∀ next ∈ g.successors id, region next) ∧
      ∀ id, region id → id ∉ targets := by
  fun_induction search g targets queue fresh generalizing seen with
  | case1 fresh =>
    refine ⟨seen, fun _ => id, by simp, fun id inside next member => ?_, missed⟩
    simpa using closed id inside next member
  | case2 => cases failed
  | case3 fresh next waiting other ih =>
    have met : ∀ id, id ∈ g.following next fresh ↔ id ∈ fresh ∧ id ∈ g.successors next := by
      simp [following]
    have unmet : ∀ id, id ∈ g.notFollowing next fresh ↔ id ∈ fresh ∧ id ∉ g.successors next := by
      simp [notFollowing]
    obtain ⟨region, old, queued, stays, apart⟩ := ih failed (fun id => seen id ∨ id = next) (by
      rintro id (inside | rfl) successor member
      · rcases closed id inside successor member with before | queued
        · exact .inl (.inl before)
        · rcases List.mem_cons.mp queued with rfl | later
          · exact .inl (.inr rfl)
          · exact .inr (List.mem_append_left _ later)
      · rcases total id successor member with before | queued | unseen
        · exact .inl (.inl before)
        · rcases List.mem_cons.mp queued with rfl | later
          · exact .inl (.inr rfl)
          · exact .inr (List.mem_append_left _ later)
        · exact .inr (List.mem_append_right _ ((met successor).mpr ⟨unseen, member⟩))) (by
      rintro id (inside | rfl)
      · exact missed id inside
      · exact other) (by
      intro id successor member
      rcases total id successor member with before | queued | unseen
      · exact .inl (.inl before)
      · rcases List.mem_cons.mp queued with rfl | later
        · exact .inl (.inr rfl)
        · exact .inr (.inl (List.mem_append_left _ later))
      · by_cases follows : successor ∈ g.successors next
        · exact .inr (.inl (List.mem_append_right _ ((met successor).mpr ⟨unseen, follows⟩)))
        · exact .inr (.inr ((unmet successor).mpr ⟨unseen, follows⟩)))
    refine ⟨region, fun id inside => old id (.inl inside), fun id member => ?_, stays, apart⟩
    rcases List.mem_cons.mp member with rfl | later
    · exact old id (.inr rfl)
    · exact queued id (List.mem_append_left _ later)

theorem exists_region_of_firstReachable?_eq_none (wired : g.Wired) {sources targets : List TensorId}
    (failed : g.firstReachable? sources targets = none) :
    ∃ region : TensorId → Prop, (∀ id ∈ sources, region id) ∧
      (∀ id, region id → ∀ next ∈ g.successors id, region next) ∧
      ∀ id, region id → id ∉ targets := by
  obtain ⟨region, _, queued, stays, apart⟩ :=
    exists_region_of_search_eq_none failed (fun _ => False) (by simp) (by simp) (by
      intro id next member
      have known : next.index < g.tensors.size := by
        unfold successors at member
        split at member
        · cases member
        · obtain ⟨reader, _, written⟩ := List.mem_flatMap.mp member
          split at written
          · cases written
          · rename_i stage atReader
            exact wired.known atReader (List.mem_append_right _ written)
      by_cases source : next ∈ sources
      · exact .inr (.inl source)
      · exact .inr (.inr (by simp [source, mem_tensorIds, known])))
  exact ⟨region, queued, stays, apart⟩

theorem tensors_addConsumer (g : Graph) (reader : StageId) (id other : TensorId) :
    (g.addConsumer reader id).tensors[other.index]? =
      (g.tensors[other.index]?).map fun tensor =>
        if other = id ∧ reader ∉ tensor.consumers then
          { tensor with consumers := tensor.consumers ++ [reader] }
        else tensor := by
  rw [addConsumer, tensors_modifyTensor]
  cases g.tensors[other.index]? with
  | none => simp
  | some tensor =>
    by_cases same : other = id
    · by_cases entered : reader ∈ tensor.consumers <;> simp [same, entered]
    · simp [same]

theorem tensors_foldl_addConsumer (g : Graph) (reader : StageId) (ids : List TensorId)
    (other : TensorId) :
    (ids.foldl (·.addConsumer reader ·) g).tensors[other.index]? =
      (g.tensors[other.index]?).map fun tensor =>
        if other ∈ ids ∧ reader ∉ tensor.consumers then
          { tensor with consumers := tensor.consumers ++ [reader] }
        else tensor := by
  induction ids generalizing g with
  | nil => simp
  | cons id rest ih =>
    rw [List.foldl_cons, ih, tensors_addConsumer]
    cases g.tensors[other.index]? with
    | none => rfl
    | some tensor =>
      by_cases entered : reader ∈ tensor.consumers
      · simp [entered]
      · by_cases here : other = id <;> by_cases later : other ∈ rest <;> simp [here, later, entered]

theorem tensors_foldl_setProducer (g : Graph) (writer : StageId) (ids : List TensorId)
    (other : TensorId) :
    (ids.foldl (·.setProducer writer ·) g).tensors[other.index]? =
      (g.tensors[other.index]?).map fun tensor =>
        if other ∈ ids then { tensor with producer := some writer } else tensor := by
  induction ids generalizing g with
  | nil => simp
  | cons id rest ih =>
    rw [List.foldl_cons, ih, setProducer, tensors_modifyTensor]
    cases g.tensors[other.index]? with
    | none => simp
    | some tensor =>
      by_cases here : other = id <;> by_cases later : other ∈ rest <;> simp [here, later]

theorem stages_foldl (change : Graph → TensorId → Graph)
    (same : ∀ g id, (change g id).stages = g.stages) (g : Graph) (ids : List TensorId) :
    (ids.foldl change g).stages = g.stages := by
  induction ids generalizing g with
  | nil => rfl
  | cons id rest ih => rw [List.foldl_cons, ih, same]

theorem stages_connect (g : Graph) (stage : Stage) :
    (g.connect stage).stages = g.stages.push stage := by
  have written := stages_foldl (fun h id => h.setProducer ⟨g.stages.size⟩ id)
    (fun _ _ => rfl) (stage.inputs.foldl (·.addConsumer ⟨g.stages.size⟩ ·) g) stage.outputs
  have read := stages_foldl (fun h id => h.addConsumer ⟨g.stages.size⟩ id)
    (fun _ _ => rfl) g stage.inputs
  simp only [connect, written, read]

theorem tensors_connect (g : Graph) (stage : Stage) (id : TensorId) :
    (g.connect stage).tensors[id.index]? = (g.tensors[id.index]?).map fun tensor =>
      { tensor with
        consumers :=
          if id ∈ stage.inputs ∧ ⟨g.stages.size⟩ ∉ tensor.consumers then
            tensor.consumers ++ [⟨g.stages.size⟩]
          else tensor.consumers
        producer := if id ∈ stage.outputs then some ⟨g.stages.size⟩ else tensor.producer } := by
  simp only [connect, tensors_foldl_setProducer, tensors_foldl_addConsumer, Option.map_map]
  cases g.tensors[id.index]? with
  | none => rfl
  | some tensor =>
    simp only [Option.map_some, Function.comp_apply, Option.some.injEq]
    split <;> split <;> rfl

/-- What a new stage has to bring along: known tensors as its kind asks for, and outputs that
nobody writes, that are not given to the network and from which nothing flows into its inputs. -/
structure Accepts (g : Graph) (stage : Stage) : Prop where
  known : ∀ id ∈ stage.inputs ++ stage.outputs, id.index < g.tensors.size
  arity : stage.inputs.length = stage.kind.arity.inputs ∧
    stage.outputs.length = stage.kind.arity.outputs
  free : ∀ id ∈ stage.outputs, ∀ tensor, g.tensors[id.index]? = some tensor →
    tensor.producer = none ∧ tensor.role ≠ .input ∧ id ∉ stage.inputs
  distinct : stage.outputs.Nodup
  forward : g.firstReachable? stage.outputs stage.inputs = none

theorem checkHandles_eq_ok_iff {ids : List TensorId} {result : Unit} :
    g.checkHandles ids = .ok result ↔ ∀ id ∈ ids, id.index < g.tensors.size := by
  induction ids with
  | nil => simp [checkHandles]
  | cons id rest ih =>
    simp only [checkHandles, bind_eq_ok, tensor_eq_ok_iff, ih, List.forall_mem_cons]
    constructor
    · intro found
      obtain ⟨tensor, atId, later⟩ := found
      exact ⟨(Array.getElem?_eq_some_iff.mp atId).1, later⟩
    · intro found
      obtain ⟨bound, later⟩ := found
      exact ⟨_, Array.getElem?_eq_getElem bound, later⟩

theorem checkOutputs_eq_ok_iff {name : String} {inputs earlier outputs : List TensorId}
    {result : Unit} :
    g.checkOutputs name inputs earlier outputs = .ok result ↔
      (∀ id ∈ outputs, ∃ tensor, g.tensors[id.index]? = some tensor ∧ tensor.producer = none ∧
        tensor.role ≠ .input ∧ id ∉ inputs ∧ id ∉ earlier) ∧ outputs.Nodup := by
  induction outputs generalizing earlier with
  | nil => simp [checkOutputs]
  | cons id rest ih =>
    simp only [checkOutputs, bind_eq_ok, tensor_eq_ok_iff, List.forall_mem_cons, List.nodup_cons]
    constructor
    · intro given
      obtain ⟨tensor, atId, found⟩ := given
      split at found
      · simp [bind_eq_ok, throw, throwThe, MonadExceptOf.throw] at found
      · rename_i unproduced
        split_ifs at found with old given read
        obtain ⟨later, distinct⟩ := ih.mp found
        refine ⟨⟨⟨tensor, atId, unproduced, given, read, old⟩, fun other member => ?_⟩, ?_, distinct⟩
        · obtain ⟨tensor', atOther, free, notGiven, notRead, notEarlier⟩ := later other member
          exact ⟨tensor', atOther, free, notGiven, notRead,
            fun before => notEarlier (List.mem_cons_of_mem _ before)⟩
        · intro again
          obtain ⟨_, _, _, _, _, notEarlier⟩ := later id again
          exact notEarlier (List.mem_cons_self ..)
    · intro found
      obtain ⟨⟨⟨tensor, atId, unproduced, given, read, old⟩, later⟩, notAgain, distinct⟩ := found
      refine ⟨tensor, atId, ?_⟩
      simp only [unproduced, old, given, read, if_false]
      refine ih.mpr ⟨fun other member => ?_, distinct⟩
      obtain ⟨tensor', atOther, free, notGiven, notRead, notEarlier⟩ := later other member
      refine ⟨tensor', atOther, free, notGiven, notRead, fun before => ?_⟩
      rcases List.mem_cons.mp before with rfl | before
      · exact notAgain member
      · exact notEarlier before

theorem checkWiring_eq_ok_iff {stage : Stage} {result : Unit} :
    g.checkWiring stage = .ok result ↔ g.Accepts stage := by
  simp only [checkWiring, bind_eq_ok, checkHandles_eq_ok_iff, Stage.checkArity_eq_ok_iff,
    checkOutputs_eq_ok_iff]
  constructor
  · intro given
    obtain ⟨_, known, _, arity, _, ⟨free, distinct⟩, found⟩ := given
    refine ⟨known, arity, fun id member tensor atId => ?_, distinct, ?_⟩
    · obtain ⟨tensor', atId', unproduced, given, read, _⟩ := free id member
      rw [atId'] at atId
      cases atId
      exact ⟨unproduced, given, read⟩
    · split at found
      · assumption
      · simp [bind_eq_ok, throw, throwThe, MonadExceptOf.throw] at found
  · intro accepts
    refine ⟨(), accepts.known, (), accepts.arity, (), ⟨fun id member => ?_, accepts.distinct⟩, ?_⟩
    · have atId := Array.getElem?_eq_getElem (accepts.known id (List.mem_append_right _ member))
      obtain ⟨unproduced, given, read⟩ := accepts.free id member _ atId
      exact ⟨_, atId, unproduced, given, read, by simp⟩
    · simp only [accepts.forward]
      rfl

theorem insertStage_eq_ok_iff {stage : Stage} {id : StageId} {after : Graph} :
    g.insertStage stage = .ok (id, after) ↔
      g.Accepts stage ∧ id = ⟨g.stages.size⟩ ∧ after = g.connect stage := by
  simp only [insertStage, bind_eq_ok, checkWiring_eq_ok_iff, pure, Except.pure, Except.ok.injEq,
    Prod.mk.injEq, exists_and_left]
  grind

/-- The stages of a graph with one stage more. -/
theorem getElem?_stages_connect {stage found : Stage} {id : StageId} :
    (g.connect stage).stages[id.index]? = some found ↔
      g.stages[id.index]? = some found ∨ id = ⟨g.stages.size⟩ ∧ found = stage := by
  obtain ⟨index⟩ := id
  rw [stages_connect, Array.getElem?_push]
  by_cases last : index = g.stages.size
  · subst last
    simp [eq_comm]
  · simp [last]

theorem size_tensors_connect (g : Graph) (stage : Stage) :
    (g.connect stage).tensors.size = g.tensors.size := by
  have size_eq (change : Graph → TensorId → Graph)
      (same : ∀ g id, (change g id).tensors.size = g.tensors.size) (g : Graph)
      (ids : List TensorId) : (ids.foldl change g).tensors.size = g.tensors.size := by
    induction ids generalizing g with
    | nil => rfl
    | cons id rest ih => rw [List.foldl_cons, ih, same]
  simp only [connect]
  rw [size_eq (fun h id => h.setProducer _ id) (by simp [setProducer, modifyTensor]),
    size_eq (fun h id => h.addConsumer _ id) (by simp [addConsumer, modifyTensor])]

/-- A depth of the tensors for the graph with one stage more: what the new stage leads to is moved
below everything it reads. -/
theorem Accepts.exists_depth {stage : Stage} (accepts : g.Accepts stage) (wired : g.Wired) :
    ∃ depth : TensorId → Nat, ∀ {id : StageId} {found : Stage},
      (g.connect stage).stages[id.index]? = some found →
        ∀ input ∈ found.inputs, ∀ output ∈ found.outputs, depth input < depth output := by
  classical
  obtain ⟨depth, grows⟩ := wired.acyclic
  obtain ⟨region, sources, stays, apart⟩ :=
    exists_region_of_firstReachable?_eq_none wired accepts.forward
  have bound : ∀ input ∈ stage.inputs, depth input ≤ (stage.inputs.map depth).sum := fun input member =>
    List.single_le_sum (by simp) _ (List.mem_map_of_mem member)
  refine ⟨fun id => depth id + if region id then (stage.inputs.map depth).sum + 1 else 0, ?_⟩
  intro id found atId input read output written
  rcases getElem?_stages_connect.mp atId with old | ⟨_, rfl⟩
  · have deeper := grows old input read output written
    by_cases inside : region input
    · have known : input.index < g.tensors.size := wired.known old (List.mem_append_left _ read)
      have follows := stays input inside output
        ((mem_successors wired known).mpr ⟨id, found, old, read, written⟩)
      simp only [inside, follows, if_true]
      omega
    · simp only [inside, if_false]
      omega
  · have outside : ¬region input := fun inside => apart input inside read
    have below := bound input read
    simp only [outside, sources output written, if_false, if_true]
    omega

theorem Wired.connect (wired : g.Wired) {stage : Stage} (accepts : g.Accepts stage) :
    (g.connect stage).Wired where
  arity := by
    intro id found atId
    rcases getElem?_stages_connect.mp atId with old | ⟨_, rfl⟩
    · exact wired.arity old
    · exact accepts.arity
  known := by
    intro id found tensor atId member
    rw [size_tensors_connect]
    rcases getElem?_stages_connect.mp atId with old | ⟨_, rfl⟩
    · exact wired.known old member
    · exact accepts.known tensor member
  readers := by
    intro id tensor reader atId
    rw [tensors_connect, Option.map_eq_some_iff] at atId
    obtain ⟨before, atBefore, rfl⟩ := atId
    have fresh := wired.not_mem_consumers atBefore
    simp only [fresh, not_false_eq_true, and_true, getElem?_stages_connect, or_and_right, exists_or,
      ← wired.readers atBefore]
    by_cases read : id ∈ stage.inputs <;> simp [read]
  sorted := by
    intro id tensor atId
    rw [tensors_connect, Option.map_eq_some_iff] at atId
    obtain ⟨before, atBefore, rfl⟩ := atId
    have sorted := wired.sorted atBefore
    have below : ∀ reader ∈ before.consumers, reader.index < g.stages.size :=
      fun _ member => wired.index_lt_of_mem_consumers atBefore member
    dsimp only
    split
    · simpa [List.pairwise_append, sorted] using below
    · exact sorted
  writer := by
    intro id tensor writer atId
    rw [tensors_connect, Option.map_eq_some_iff] at atId
    obtain ⟨before, atBefore, rfl⟩ := atId
    simp only [getElem?_stages_connect, or_and_right, exists_or, ← wired.writer atBefore]
    by_cases written : id ∈ stage.outputs
    · simp [written, (accepts.free id written before atBefore).1, eq_comm (a := writer)]
    · simp [written]
  given := by
    intro id tensor atId role
    rw [tensors_connect, Option.map_eq_some_iff] at atId
    obtain ⟨before, atBefore, rfl⟩ := atId
    by_cases written : id ∈ stage.outputs
    · exact absurd role (accepts.free id written before atBefore).2.1
    · simpa [written] using wired.given atBefore role
  acyclic := accepts.exists_depth wired

end Graph

end TensorLowering
