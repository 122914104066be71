import TensorLowering.Proofs.Chains
import TensorLowering.Proofs.Constraints

/-!
Inserting the same stages in another order gives them other handles. Nothing else that a graph says
about its tensors and stages depends on the order.
-/

namespace TensorLowering

/-- The tensor without the handles of the stages around it. -/
def Tensor.unwired (tensor : Tensor) : Tensor := { tensor with producer := none, consumers := [] }

/-! Layouts have nothing to do with the stages around a tensor. -/

namespace Tensor

variable (tensor : Tensor)

theorem isDense_unwired : tensor.unwired.isDense = tensor.isDense := by
  have follows (stride : Nat) (axes : List Axis) (strides : AxisMap) :
      tensor.unwired.denseFrom stride axes strides = tensor.denseFrom stride axes strides := by
    induction axes generalizing stride strides with
    | nil => rfl
    | cons axis outer ih =>
      simp only [denseFrom, ih]
      rfl
  unfold isDense denseStrides
  rw [follows]
  rfl

theorem layoutViolation?_unwired : tensor.unwired.layoutViolation? = tensor.layoutViolation? := by
  have follows (strides : AxisMap) (position minimum : Nat) (axes : List Axis) :
      tensor.unwired.violationFrom? strides position minimum axes =
        tensor.violationFrom? strides position minimum axes := by
    induction axes generalizing position minimum with
    | nil => rfl
    | cons axis outer ih =>
      simp only [violationFrom?, ih]
      rfl
  unfold layoutViolation?
  simp only [follows]
  rfl

end Tensor

namespace Graph

/-- The stage and its tensors without the handles of stages. -/
def Site.unwired (site : Site) : Site :=
  ⟨⟨0⟩, site.stage, site.inputId, site.input.unwired, site.outputId, site.output.unwired⟩

/-- What was given about the stage and its tensors, without the handles of stages. -/
def Site.given (site : Site) : Site :=
  (site.view (fun _ => Tensor.undecided) Stage.undecided).unwired

/-- The graphs have the same tensors and the same stages, which may be inserted in another order. -/
structure Rearranged (g h : Graph) : Prop where
  tensors : g.tensors.map Tensor.unwired = h.tensors.map Tensor.unwired
  stages : g.stages.toList.Perm h.stages.toList

/-- The same network was built, whatever was decided about it. -/
def SameNetwork (g h : Graph) : Prop := Rearranged g.undecided h.undecided

variable {g h k : Graph}

/-- Tensors are alike once they are alike one by one. -/
theorem unwired_eq_of_exists_tensor (size : g.tensors.size = h.tensors.size)
    (each : ∀ {id : TensorId} {tensor : Tensor}, g.tensors[id.index]? = some tensor →
      ∃ tensor', h.tensors[id.index]? = some tensor' ∧ tensor'.unwired = tensor.unwired) :
    g.tensors.map Tensor.unwired = h.tensors.map Tensor.unwired := by
  refine Array.ext (by simpa using size) fun place bound _ => ?_
  have known : place < g.tensors.size := by simpa using bound
  obtain ⟨tensor', atPlace, alike⟩ := @each ⟨place⟩ _ (Array.getElem?_eq_getElem known)
  obtain ⟨_, here⟩ := Array.getElem?_eq_some_iff.mp atPlace
  simp [← alike, here]

namespace Rearranged

theorem refl (g : Graph) : Rearranged g g := ⟨rfl, .refl _⟩

theorem symm (same : Rearranged g h) : Rearranged h g := ⟨same.tensors.symm, same.stages.symm⟩

theorem trans (first : Rearranged g h) (second : Rearranged h k) : Rearranged g k :=
  ⟨first.tensors.trans second.tensors, first.stages.trans second.stages⟩

theorem size_eq (same : Rearranged g h) : g.tensors.size = h.tensors.size := by
  simpa using congrArg Array.size same.tensors

theorem exists_tensor (same : Rearranged g h) {id : TensorId} {tensor : Tensor}
    (atId : g.tensors[id.index]? = some tensor) :
    ∃ tensor', h.tensors[id.index]? = some tensor' ∧ tensor'.unwired = tensor.unwired := by
  have found := congrArg (fun tensors : Array Tensor => tensors[id.index]?) same.tensors
  simp only [Array.getElem?_map, atId, Option.map_some] at found
  exact Option.map_eq_some_iff.mp found.symm

theorem exists_stage (same : Rearranged g h) {id : StageId} {stage : Stage}
    (atId : g.stages[id.index]? = some stage) :
    ∃ id' : StageId, h.stages[id'.index]? = some stage := by
  have member := Array.mem_toList_iff.mpr (mem_stages_iff.mpr ⟨id, atId⟩)
  exact mem_stages_iff.mp (Array.mem_toList_iff.mp (same.stages.mem_iff.mp member))

/-- A stage of the one graph is found in the other one, under another handle perhaps. -/
theorem exists_site (same : Rearranged g h) {site : Site} (hosts : g.Hosts site) :
    ∃ site', h.Hosts site' ∧ site'.unwired = site.unwired := by
  obtain ⟨id, atId⟩ := same.exists_stage hosts.stage
  obtain ⟨input, atInput, sameInput⟩ := same.exists_tensor hosts.input
  obtain ⟨output, atOutput, sameOutput⟩ := same.exists_tensor hosts.output
  refine ⟨⟨id, site.stage, site.inputId, input, site.outputId, output⟩,
    ⟨atId, hosts.inputs, hosts.outputs, atInput, atOutput⟩, ?_⟩
  simp only [Site.unwired, sameInput, sameOutput]

theorem undecided (same : Rearranged g h) : SameNetwork g h where
  tensors := by
    have mapped := congrArg (Array.map Tensor.undecided) same.tensors
    rw [Array.map_map, Array.map_map] at mapped
    simp only [Graph.undecided, Array.map_map]
    exact mapped
  stages := by
    simpa only [Graph.undecided, Array.toList_map] using same.stages.map Stage.undecided

/-- A view of the tensors that knows no handles of stages is the same for both graphs. -/
theorem elim_eq {α : Type} (same : Rearranged g h) (none : α) (view : Tensor → α)
    (unwired : ∀ tensor, view tensor.unwired = view tensor) (id : TensorId) :
    (g.tensors[id.index]?).elim none view = (h.tensors[id.index]?).elim none view := by
  have viewed (k : Graph) : (k.tensors[id.index]?).elim none view =
      ((k.tensors.map Tensor.unwired)[id.index]?).elim none view := by
    rw [Array.getElem?_map]
    cases k.tensors[id.index]? with
    | none => rfl
    | some tensor => exact (unwired tensor).symm
  rw [viewed g, viewed h, same.tensors]

theorem decisions_eq (same : Rearranged g h) : g.decisions = h.decisions := by
  have decided (k : Graph) : (k.tensors.map Tensor.unwired).map Tensor.decisions = k.decisions := by
    rw [Array.map_map]
    rfl
  rw [← decided g, same.tensors, decided h]

theorem requirement_eq (same : Rearranged g h) : g.requirement = h.requirement :=
  funext fun id => same.elim_eq _ _ (fun _ => rfl) id

end Rearranged

/-! ### The network -/

theorem hosts_undecided {site : Site} (hosts : g.Hosts site) :
    g.undecided.Hosts (site.view (fun _ => Tensor.undecided) Stage.undecided) := by
  refine (hosts_iff_view (fun id => ?_) (fun id => ?_) (fun _ => ?_) fun _ => ?_).mpr
    ⟨site, hosts, rfl⟩
  · simp [Graph.undecided]
  · simp [Graph.undecided]
  · rfl
  · rfl

namespace SameNetwork

theorem of_undecided_eq (same : g.undecided = h.undecided) : SameNetwork g h := by
  unfold SameNetwork
  rw [same]
  exact .refl _

theorem symm (network : SameNetwork g h) : SameNetwork h g := Rearranged.symm network

theorem trans (first : SameNetwork g h) (second : SameNetwork h k) : SameNetwork g k :=
  Rearranged.trans first second

theorem size_eq (network : SameNetwork g h) : g.tensors.size = h.tensors.size := by
  simpa [Graph.undecided] using Rearranged.size_eq network

theorem exists_tensor (network : SameNetwork g h) {id : TensorId} {tensor : Tensor}
    (atId : g.tensors[id.index]? = some tensor) :
    ∃ tensor', h.tensors[id.index]? = some tensor' ∧
      tensor'.undecided.unwired = tensor.undecided.unwired := by
  have built : g.undecided.tensors[id.index]? = some tensor.undecided := by
    simp [Graph.undecided, atId]
  obtain ⟨_, atId', same⟩ := Rearranged.exists_tensor network built
  simp only [Graph.undecided, Array.getElem?_map, Option.map_eq_some_iff] at atId'
  obtain ⟨tensor', atId', rfl⟩ := atId'
  exact ⟨tensor', atId', same⟩

theorem exists_site (network : SameNetwork g h) {site : Site} (hosts : g.Hosts site) :
    ∃ site', h.Hosts site' ∧ site'.given = site.given := by
  obtain ⟨_, hosts', same⟩ := Rearranged.exists_site network (hosts_undecided hosts)
  obtain ⟨stage, inputs, outputs, input, output⟩ := hosts'
  simp only [Graph.undecided, Array.getElem?_map, Option.map_eq_some_iff] at stage input output
  obtain ⟨stage, atStage, sameStage⟩ := stage
  obtain ⟨input, atInput, sameInput⟩ := input
  obtain ⟨output, atOutput, sameOutput⟩ := output
  rw [← sameStage] at inputs outputs
  refine ⟨⟨_, stage, _, input, _, output⟩, ⟨atStage, inputs, outputs, atInput, atOutput⟩, ?_⟩
  simpa only [Site.given, Site.view, Site.unwired, sameStage, sameInput, sameOutput] using same

/-- What all stages of one graph have, and what is a matter of the network, all stages of the other
one have. -/
theorem forall_hosts {property : Site → Prop} (network : SameNetwork g h)
    (given : ∀ {site site' : Site}, g.Hosts site → h.Hosts site' → site'.given = site.given →
      property site → property site')
    (all : ∀ site, g.Hosts site → property site) (site : Site) (hosts : h.Hosts site) :
    property site := by
  obtain ⟨site', hosts', same⟩ := network.symm.exists_site hosts
  exact given hosts' hosts same.symm (all site' hosts')

end SameNetwork

namespace Site

variable {site site' : Site} {r : TensorId → Requirement}

theorem widens_given : site.given.Widens ↔ site.Widens := by
  unfold Widens
  simp only [given, unwired, view, Stage.undecided]
  cases site.stage.operation <;> rfl

theorem demandsFit_given : site.given.DemandsFit ↔ site.DemandsFit := by
  unfold DemandsFit
  simp only [given, unwired, view, Stage.undecided]
  cases site.stage.operation <;> rfl

theorem isNonlinear_given : site.given.stage.isNonlinear = site.stage.isNonlinear := by
  unfold Stage.isNonlinear
  simp only [given, unwired, view, Stage.undecided]
  cases site.stage.operation <;> rfl

theorem inputId_of_given_eq (same : site'.given = site.given) : site'.inputId = site.inputId :=
  (congrArg Site.inputId same :)

theorem outputId_of_given_eq (same : site'.given = site.given) :
    site'.outputId = site.outputId :=
  (congrArg Site.outputId same :)

theorem extents_of_given_eq (same : site'.given = site.given) :
    site'.input.extents = site.input.extents ∧ site'.output.extents = site.output.extents :=
  ⟨(congrArg (fun s : Site => s.input.extents) same :),
    (congrArg (fun s : Site => s.output.extents) same :)⟩

/-- Whether a stage is served is a matter of the network and of the order of its output. -/
theorem MetBy.of_given_eq (met : site.MetBy r) (same : site'.given = site.given)
    (order : site'.output.order = site.output.order) : site'.MetBy r := by
  have operation : site'.stage.operation.undecided = site.stage.operation.undecided :=
    (congrArg (fun s : Site => s.stage.operation) same :)
  obtain ⟨inputExtents, outputExtents⟩ := extents_of_given_eq same
  rw [← metBy_planned] at met ⊢
  simp only [MetBy, WidensAt, planned, view, Stage.undecided, operation, Tensor.planned,
    inputId_of_given_eq same, outputId_of_given_eq same, inputExtents, outputExtents,
    order] at met ⊢
  exact met

end Site

theorem Answerable.of_sameNetwork (answerable : g.Answerable) (network : SameNetwork g h) :
    h.Answerable where
  widens := network.forall_hosts (fun _ _ same widens => Site.widens_given.mp
    (same ▸ Site.widens_given.mpr widens)) answerable.widens
  fits := network.forall_hosts (fun _ _ same fits => Site.demandsFit_given.mp
    (same ▸ Site.demandsFit_given.mpr fits)) answerable.fits

/-- No stage writes the tensor. -/
def Unwritten (g : Graph) (id : TensorId) : Prop := ∀ site, g.Hosts site → site.outputId ≠ id

theorem SameNetwork.unwritten (network : SameNetwork g h) {id : TensorId}
    (unwritten : g.Unwritten id) : h.Unwritten id := by
  refine network.forall_hosts (fun _ _ same other => ?_) unwritten
  exact fun here => other ((Site.outputId_of_given_eq same).symm.trans here)

/-- Every tensor is given to the network or written, and what is given is read. -/
structure Complete (g : Graph) : Prop where
  read : ∀ {id : TensorId} {tensor : Tensor}, g.tensors[id.index]? = some tensor →
    tensor.role = .input → ∃ site, g.Hosts site ∧ site.inputId = id
  written : ∀ {id : TensorId} {tensor : Tensor}, g.tensors[id.index]? = some tensor →
    tensor.role ≠ .input → ∃ site, g.Hosts site ∧ site.outputId = id

theorem Complete.of_sameNetwork (complete : g.Complete) (network : SameNetwork g h) :
    h.Complete where
  read := by
    intro id tensor atId role
    obtain ⟨tensor', atId', same⟩ := network.symm.exists_tensor atId
    have role' : tensor'.role = tensor.role := (congrArg Tensor.role same :)
    obtain ⟨site, hosts, rfl⟩ := complete.read atId' (role'.trans role)
    obtain ⟨site', hosts', same'⟩ := network.exists_site hosts
    exact ⟨site', hosts', Site.inputId_of_given_eq same'⟩
  written := by
    intro id tensor atId role
    obtain ⟨tensor', atId', same⟩ := network.symm.exists_tensor atId
    have role' : tensor'.role = tensor.role := (congrArg Tensor.role same :)
    obtain ⟨site, hosts, rfl⟩ := complete.written atId' (role' ▸ role)
    obtain ⟨site', hosts', same'⟩ := network.exists_site hosts
    exact ⟨site', hosts', Site.outputId_of_given_eq same'⟩

/-- The sole reader of a tensor is known by what it writes. -/
theorem isSome_soleNonlinearReader?_iff (wired : g.Wired) {id : TensorId} {tensor : Tensor}
    (atId : g.tensors[id.index]? = some tensor) :
    (g.soleNonlinearReader? id).isSome ↔ ∃ site, g.Hosts site ∧ site.inputId = id ∧
      site.stage.isNonlinear ∧
        ∀ other, g.Hosts other → other.inputId = id → other.outputId = site.outputId := by
  constructor
  · intro found
    obtain ⟨reader, sole⟩ := Option.isSome_iff_exists.mp found
    obtain ⟨site, hosts, rfl, rfl, nonlinear⟩ := site_of_sole wired sole
    refine ⟨site, hosts, rfl, nonlinear, fun other hosts' reads => ?_⟩
    rw [← reads] at sole
    obtain ⟨same, -⟩ := hosts'.of_soleNonlinearReader? wired sole
    exact congrArg Site.outputId (hosts'.unique hosts same.symm)
  · rintro ⟨site, hosts, rfl, nonlinear, only⟩
    obtain rfl := Option.some.inj (atId.symm.trans hosts.input)
    have each : ∀ reader ∈ site.input.consumers, reader = site.id := by
      intro reader member
      obtain ⟨other, hosts', rfl, reads⟩ := wired.site_of_mem_consumers hosts.input member
      exact hosts'.id_eq_of_outputId_eq hosts wired (only other hosts' reads)
    have distinct : site.input.consumers.Nodup :=
      (wired.sorted hosts.input).imp fun less same => by simp [same] at less
    have one : site.input.consumers = [site.id] := by
      have all := List.eq_replicate_iff.mpr ⟨rfl, each⟩
      have few := List.nodup_iff_count_le_one.mp distinct site.id
      rw [all, List.count_replicate_self] at few
      have some := List.length_pos_of_mem (hosts.mem_consumers wired)
      rw [all, show site.input.consumers.length = 1 by omega]
      rfl
    exact Option.isSome_iff_exists.mpr ⟨_, hosts.soleNonlinearReader?_eq nonlinear one⟩

theorem SameNetwork.isSome_soleNonlinearReader? (network : SameNetwork g h) (wired : g.Wired)
    (wired' : h.Wired) {id : TensorId} {tensor : Tensor}
    (atId : g.tensors[id.index]? = some tensor)
    (sole : (g.soleNonlinearReader? id).isSome) : (h.soleNonlinearReader? id).isSome := by
  obtain ⟨tensor', atId', -⟩ := network.exists_tensor atId
  obtain ⟨site, hosts, rfl, nonlinear, only⟩ := (isSome_soleNonlinearReader?_iff wired atId).mp sole
  obtain ⟨site', hosts', same⟩ := network.exists_site hosts
  refine (isSome_soleNonlinearReader?_iff wired' atId').mpr
    ⟨site', hosts', Site.inputId_of_given_eq same, ?_, ?_⟩
  · rw [← Site.isNonlinear_given, same, Site.isNonlinear_given]
    exact nonlinear
  · intro other hostsOther reads
    obtain ⟨before, hostsBefore, sameBefore⟩ := network.symm.exists_site hostsOther
    rw [← Site.outputId_of_given_eq sameBefore, Site.outputId_of_given_eq same]
    exact only before hostsBefore ((Site.inputId_of_given_eq sameBefore).trans reads)

/-! ### Orders follow the stages -/

/-- The order of a tensor; an order without axes for one that the graph lacks. -/
def order (g : Graph) (id : TensorId) : AxisOrder := (g.tensors[id.index]?).elim ⟨[]⟩ Tensor.order

theorem order_of_getElem? {id : TensorId} {tensor : Tensor}
    (atId : g.tensors[id.index]? = some tensor) : g.order id = tensor.order := by
  simp [order, atId]

theorem Rearranged.order_eq (same : Rearranged g h) : g.order = h.order :=
  funext fun id => same.elim_eq _ _ (fun _ => rfl) id

/-- Aligned graphs of one network have the same orders once they agree on what no stage writes. -/
theorem Aligned.order_eq (aligned : g.Aligned) (aligned' : h.Aligned) (network : SameNetwork g h)
    (wired : g.Wired) (given : ∀ id, g.Unwritten id → h.order id = g.order id) :
    h.order = g.order := by
  funext id
  induction id using wired.induction_upstream with | step id upstream => ?_
  by_cases unwritten : g.Unwritten id
  · exact given id unwritten
  · simp only [Unwritten, not_forall, not_not] at unwritten
    obtain ⟨site, hosts, rfl⟩ := unwritten
    obtain ⟨site', hosts', same⟩ := network.exists_site hosts
    have inputId := Site.inputId_of_given_eq same
    have outputId := Site.outputId_of_given_eq same
    calc h.order site.outputId
        = site'.output.order := outputId ▸ order_of_getElem? hosts'.output
      _ = site'.input.order := aligned' site' hosts'
      _ = h.order site.inputId := (inputId ▸ order_of_getElem? hosts'.input).symm
      _ = g.order site.inputId := upstream site hosts rfl
      _ = site.input.order := order_of_getElem? hosts.input
      _ = site.output.order := (aligned site hosts).symm
      _ = g.order site.outputId := (order_of_getElem? hosts.output).symm

/-- In the same orders the same requirements serve the stages. -/
theorem SameNetwork.metBy_iff (network : SameNetwork g h) (orders : h.order = g.order)
    {r : TensorId → Requirement} :
    (∀ site, h.Hosts site → site.MetBy r) ↔ ∀ site, g.Hosts site → site.MetBy r := by
  have keeps {k l : Graph} (network : SameNetwork k l) (orders : l.order = k.order) :
      (∀ site, k.Hosts site → site.MetBy r) → ∀ site, l.Hosts site → site.MetBy r := by
    refine network.forall_hosts fun {site site'} hosts hosts' same met => met.of_given_eq same ?_
    rw [← order_of_getElem? hosts'.output, ← order_of_getElem? hosts.output,
      Site.outputId_of_given_eq same, orders]
  exact ⟨keeps network.symm orders.symm, keeps network orders⟩

end Graph

end TensorLowering
