import Mathlib.Order.Nat
import TensorLowering.Proofs.Shape

namespace TensorLowering

namespace Graph

/-- What is asked of a tensor; nothing of one that the graph lacks. -/
def requirement (g : Graph) (id : TensorId) : Requirement :=
  (g.tensors[id.index]?).elim .empty Tensor.requirement

namespace Site

/-- Input and output differ in their extent along the axis at a position of the output's order. -/
def WidensAt (site : Site) (position : Nat) : Prop :=
  ∃ axis, site.output.order.axisAt? position = some axis ∧
    site.output.extents.get? axis ≠ site.input.extents.get? axis

/-- An expand stage has an output axis along which the input has another extent. -/
def Widens (site : Site) : Prop :=
  match site.stage.operation with
  | .expand _ => ∃ axis extent, site.output.extents.get? axis = some extent ∧
      site.input.extents.get? axis ≠ some extent
  | _ => True

/-- What a copy or a power stage asks, it asks of axes that the tensors have. -/
def DemandsFit (site : Site) : Prop :=
  match site.stage.operation with
  | .copy demands _ =>
    (∀ position, demands.input.get position ≠ .any → position < site.input.extents.size) ∧
      ∀ position, demands.output.get position ≠ .any → position < site.output.extents.size
  | .power _ => 0 < site.input.extents.size ∧ 0 < site.output.extents.size
  | .expand _ => True

/-- The stage is served by what is asked of its tensors. The input of an expand stage has to follow
the output up to the innermost position at which the two differ. -/
def MetBy (site : Site) (r : TensorId → Requirement) : Prop :=
  match site.stage.operation with
  | .copy demands _ => demands.input ≤ r site.inputId ∧ demands.output ≤ r site.outputId
  | .power _ => (r site.inputId).get 0 = .compact ∧ (r site.outputId).get 0 = .compact
  | .expand _ => ∀ widened, IsLeast {position | site.WidensAt position} widened →
      ∀ position ≤ widened, (r site.outputId).get position ≤ (r site.inputId).get position

end Site

/-- Requirements that keep what is asked already and serve every stage. -/
structure Solves (g : Graph) (r : TensorId → Requirement) : Prop where
  grown : g.requirement ≤ r
  met : ∀ site, g.Hosts site → site.MetBy r

/-- Every stage that expands has something to ask for, and what is asked keeps to the axes. -/
structure Answerable (g : Graph) : Prop where
  widens : ∀ site, g.Hosts site → site.Widens
  fits : ∀ site, g.Hosts site → site.DemandsFit

/-- Every output has the order of its input, so that positions mean the same on both sides. -/
def Aligned (g : Graph) : Prop := ∀ site, g.Hosts site → site.output.order = site.input.order

end Graph

theorem AxisMap.mem_toList {m : AxisMap} {axis : Axis} {value : Nat} :
    (axis, value) ∈ m.toList ↔ m.get? axis = some value := by
  simp only [toList, List.mem_filterMap, Option.map_eq_some_iff]
  constructor
  · intro given
    obtain ⟨axis', _, value', found, same⟩ := given
    cases same
    exact found
  · intro found
    exact ⟨axis, Axis.mem_all axis, value, found, rfl⟩

theorem AxisOrder.position?_eq_some_iff {order : AxisOrder} (nodup : order.axes.Nodup) {axis : Axis}
    {position : Nat} : order.position? axis = some position ↔ order.axisAt? position = some axis := by
  simp only [position?, axisAt?, List.idxOf?_eq_some_iff]
  constructor
  · intro given
    obtain ⟨bound, found, _⟩ := given
    rw [List.getElem?_eq_getElem bound, found]
  · intro found
    obtain ⟨bound, same⟩ := List.getElem?_eq_some_iff.mp found
    refine ⟨bound, same, fun earlier before again => ?_⟩
    have differ := (List.nodup_iff_pairwise_ne.mp nodup)
    have := List.pairwise_iff_getElem.mp differ earlier position (by omega) bound before
    exact this (again.trans same.symm)

namespace Graph

namespace Site

variable {site : Site} {r : TensorId → Requirement}

theorem exists_widensAt_iff (shaped : site.output.Shaped) :
    (∃ position, site.WidensAt position) ↔
      ∃ axis extent, site.output.extents.get? axis = some extent ∧
        site.input.extents.get? axis ≠ some extent := by
  constructor
  · intro found
    obtain ⟨position, axis, atPosition, differ⟩ := found
    have member : axis ∈ site.output.order.axes := List.mem_of_getElem? atPosition
    obtain ⟨extent, found⟩ := Option.isSome_iff_exists.mp ((shaped.axes axis).mp member)
    exact ⟨axis, extent, found, fun same => differ (found.trans same.symm)⟩
  · intro given
    obtain ⟨axis, extent, found, differ⟩ := given
    have member := (shaped.axes axis).mpr (Option.isSome_iff_exists.mpr ⟨extent, found⟩)
    obtain ⟨position, atPosition⟩ := List.mem_iff_getElem?.mp member
    exact ⟨position, axis, atPosition, fun same => differ (same ▸ found)⟩

theorem innermostWidened?_eq_some_iff (shaped : site.output.Shaped) {widened : Nat} :
    innermostWidened? site.input site.output = some widened ↔
      IsLeast {position | site.WidensAt position} widened := by
  have places (position : Nat) :
      position ∈ (site.output.extents.toList.filter fun entry =>
        site.input.extents.get? entry.1 ≠ some entry.2).filterMap
          (fun entry => site.output.order.position? entry.1) ↔ site.WidensAt position := by
    simp only [List.mem_filterMap, List.mem_filter, Prod.exists, AxisMap.mem_toList,
      AxisOrder.position?_eq_some_iff shaped.nodup, decide_eq_true_eq]
    constructor
    · intro given
      obtain ⟨axis, extent, ⟨found, differ⟩, atPosition⟩ := given
      exact ⟨axis, atPosition, fun same => differ (same ▸ found)⟩
    · intro found
      obtain ⟨axis, atPosition, differ⟩ := found
      have member : axis ∈ site.output.order.axes := List.mem_of_getElem? atPosition
      obtain ⟨extent, found⟩ := Option.isSome_iff_exists.mp ((shaped.axes axis).mp member)
      exact ⟨axis, extent, ⟨found, fun same => differ (found.trans same.symm)⟩, atPosition⟩
  simp only [innermostWidened?, List.min?_eq_some_iff, places]
  rfl

theorem innermostWidened?_eq_none_iff (shaped : site.output.Shaped) :
    innermostWidened? site.input site.output = none ↔ ¬∃ position, site.WidensAt position := by
  constructor
  · intro none widens
    classical
    rw [(innermostWidened?_eq_some_iff shaped).mpr (Nat.isLeast_find widens)] at none
    cases none
  · intro never
    cases found : innermostWidened? site.input site.output with
    | none => rfl
    | some widened =>
      exact absurd ⟨widened, ((innermostWidened?_eq_some_iff shaped).mp found).1⟩ never

/-- What a stage asks of its input and its output, if its tensors stand under given requirements. An
expand stage that is not wider has no answer. -/
def demands? (site : Site) (r : TensorId → Requirement) : Option (Requirement × Requirement) :=
  match site.stage.operation with
  | .copy demands _ => some (demands.input, demands.output)
  | .power _ => some (Requirement.empty.set 0 .compact, Requirement.empty.set 0 .compact)
  | .expand _ => (innermostWidened? site.input site.output).map fun widened =>
      ((r site.outputId).clearAbove widened, r site.outputId)

theorem demands?_isSome_iff (shaped : site.output.Shaped) :
    (site.demands? r).isSome ↔ site.Widens := by
  unfold demands? Widens
  cases site.stage.operation with
  | expand offset =>
    simp only [Option.isSome_map, ← exists_widensAt_iff shaped]
    rw [← not_iff_not, ← innermostWidened?_eq_none_iff shaped]
    simp
  | copy demands mode => simp
  | power params => simp

/-- What a stage asks under some requirements is met by all that are above them and serve it. -/
theorem MetBy.demands_le {demands : Requirement × Requirement} {upper : TensorId → Requirement}
    (met : site.MetBy upper) (shaped : site.output.Shaped) (asks : site.demands? r = some demands)
    (above : r ≤ upper) : demands.1 ≤ upper site.inputId ∧ demands.2 ≤ upper site.outputId := by
  unfold demands? at asks
  unfold MetBy at met
  cases operation : site.stage.operation with
  | expand offset =>
    simp only [operation, Option.map_eq_some_iff] at asks met
    obtain ⟨widened, found, rfl⟩ := asks
    refine ⟨Requirement.clearAbove_le_iff.mpr fun position within => ?_, above site.outputId⟩
    exact (above site.outputId position).trans
      (met widened ((innermostWidened?_eq_some_iff shaped).mp found) position within)
  | copy demands mode =>
    simp only [operation, Option.some.injEq] at asks met
    subst asks
    exact met
  | power params =>
    simp only [operation, Option.some.injEq] at asks met
    subst asks
    exact ⟨Requirement.set_zero_compact_le_iff.mpr met.1,
      Requirement.set_zero_compact_le_iff.mpr met.2⟩

/-- Requirements that meet what a stage asks under them serve the stage. -/
theorem MetBy.of_demands_le {demands : Requirement × Requirement} (shaped : site.output.Shaped)
    (asks : site.demands? r = some demands) (below : demands.1 ≤ r site.inputId)
    (below' : demands.2 ≤ r site.outputId) : site.MetBy r := by
  unfold demands? at asks
  unfold MetBy
  cases operation : site.stage.operation with
  | expand offset =>
    simp only [operation, Option.map_eq_some_iff] at asks ⊢
    obtain ⟨widened, found, rfl⟩ := asks
    intro innermost least position within
    rw [least.unique ((innermostWidened?_eq_some_iff shaped).mp found)] at within
    exact Requirement.clearAbove_le_iff.mp below position within
  | copy demands mode =>
    simp only [operation, Option.some.injEq] at asks ⊢
    subst asks
    exact ⟨below, below'⟩
  | power params =>
    simp only [operation, Option.some.injEq] at asks ⊢
    subst asks
    exact ⟨Requirement.set_zero_compact_le_iff.mp below,
      Requirement.set_zero_compact_le_iff.mp below'⟩

/-- A stage stays served if more is asked of its tensors, except that the output of an expand stage
has to stay as it is. -/
theorem MetBy.mono {upper : TensorId → Requirement} (met : site.MetBy r) (above : r ≤ upper)
    (kept : ∀ offset, site.stage.operation = .expand offset →
      upper site.outputId = r site.outputId) : site.MetBy upper := by
  unfold MetBy at met ⊢
  cases operation : site.stage.operation with
  | expand offset =>
    simp only [operation] at met ⊢
    intro widened least position within
    rw [kept offset operation]
    exact (met widened least position within).trans (above site.inputId position)
  | copy demands mode =>
    simp only [operation] at met ⊢
    exact ⟨met.1.trans (above site.inputId), met.2.trans (above site.outputId)⟩
  | power params =>
    simp only [operation, ← Slot.compact_le_iff] at met ⊢
    exact ⟨met.1.trans (above site.inputId 0), met.2.trans (above site.outputId 0)⟩

theorem demands?_of_expand {offset : AxisMap} {demands : Requirement × Requirement}
    (operation : site.stage.operation = .expand offset) (asks : site.demands? r = some demands) :
    demands.2 = r site.outputId := by
  simp only [demands?, operation, Option.map_eq_some_iff] at asks
  obtain ⟨_, _, rfl⟩ := asks
  rfl

/-- What a stage asks depends at most on the requirement of its output, and only if it expands. -/
theorem demands?_congr {r' : TensorId → Requirement}
    (same : ∀ offset, site.stage.operation = .expand offset →
      r' site.outputId = r site.outputId) : site.demands? r' = site.demands? r := by
  unfold demands?
  cases operation : site.stage.operation with
  | expand offset => simp only [same offset operation]
  | copy demands mode => rfl
  | power params => rfl

end Site

/-! ### The constraints are a matter of the plan -/

/-- The site with the orders and requirements that were decided, but nothing else. -/
def Site.planned (site : Site) : Site := site.view (fun _ => Tensor.planned) Stage.undecided

namespace Site

variable {site : Site} {r : TensorId → Requirement}

theorem widens_planned : site.planned.Widens ↔ site.Widens := by
  unfold Widens
  simp only [planned, view, Stage.undecided]
  cases site.stage.operation <;> rfl

theorem demandsFit_planned : site.planned.DemandsFit ↔ site.DemandsFit := by
  unfold DemandsFit
  simp only [planned, view, Stage.undecided]
  cases site.stage.operation <;> rfl

theorem metBy_planned : site.planned.MetBy r ↔ site.MetBy r := by
  unfold MetBy
  simp only [planned, view, Stage.undecided]
  cases site.stage.operation <;> rfl

end Site

variable {g h : Graph}

theorem hosts_planned_iff {site : Site} :
    g.planned.Hosts site ↔ ∃ before, g.Hosts before ∧ site = before.planned := by
  refine hosts_iff_view (fun id => ?_) (fun id => ?_) (fun _ => ?_) fun _ => ?_
  · simp [planned]
  · simp [planned]
  · rfl
  · rfl

theorem forall_hosts_planned_iff {property : Site → Prop} :
    (∀ site, g.planned.Hosts site → property site) ↔
      ∀ site, g.Hosts site → property site.planned := by
  constructor
  · intro all site hosts
    exact all site.planned (hosts_planned_iff.mpr ⟨site, hosts, rfl⟩)
  · intro all site hosts
    obtain ⟨before, hosts', rfl⟩ := hosts_planned_iff.mp hosts
    exact all before hosts'

theorem requirement_planned (g : Graph) : g.planned.requirement = g.requirement := by
  funext id
  simp only [requirement, planned, Array.getElem?_map]
  cases g.tensors[id.index]? <;> rfl

theorem requirement_of_planned_eq (same : h.planned = g.planned) :
    h.requirement = g.requirement := by
  rw [← requirement_planned h, same, requirement_planned]

theorem metBy_iff_of_planned_eq (same : h.planned = g.planned) {r : TensorId → Requirement} :
    (∀ site, h.Hosts site → site.MetBy r) ↔ ∀ site, g.Hosts site → site.MetBy r := by
  have plan (k : Graph) : (∀ site, k.planned.Hosts site → site.MetBy r) ↔
      ∀ site, k.Hosts site → site.MetBy r :=
    forall_hosts_planned_iff.trans (forall₂_congr fun _ _ => Site.metBy_planned)
  rw [← plan h, same, plan g]

theorem Solves.of_planned_eq {r : TensorId → Requirement} (solves : g.Solves r)
    (same : h.planned = g.planned) : h.Solves r where
  grown := (requirement_of_planned_eq same).trans_le solves.grown
  met := (metBy_iff_of_planned_eq same).mpr solves.met

theorem Answerable.of_planned_eq (answerable : g.Answerable) (same : h.planned = g.planned) :
    h.Answerable := by
  have plan : g.planned.Answerable :=
    ⟨forall_hosts_planned_iff.mpr fun site hosts =>
      Site.widens_planned.mpr (answerable.widens site hosts),
    forall_hosts_planned_iff.mpr fun site hosts =>
      Site.demandsFit_planned.mpr (answerable.fits site hosts)⟩
  rw [← same] at plan
  exact ⟨fun site hosts => Site.widens_planned.mp (forall_hosts_planned_iff.mp plan.widens site hosts),
    fun site hosts => Site.demandsFit_planned.mp (forall_hosts_planned_iff.mp plan.fits site hosts)⟩

theorem Aligned.of_planned_eq (aligned : g.Aligned) (same : h.planned = g.planned) : h.Aligned := by
  have plan : g.planned.Aligned := forall_hosts_planned_iff.mpr aligned
  rw [← same] at plan
  exact forall_hosts_planned_iff.mp plan

/-! ### Replacing the requirements -/

def require (g : Graph) (r : TensorId → Requirement) : Graph :=
  { g with tensors := g.tensors.mapIdx fun index tensor => { tensor with requirement := r ⟨index⟩ } }

def Site.require (site : Site) (r : TensorId → Requirement) : Site :=
  site.view (fun id tensor => { tensor with requirement := r id }) fun stage => stage

variable {r : TensorId → Requirement}

theorem require_eq (g : Graph) (r : TensorId → Requirement) :
    g.require r = g.mapTensors fun id tensor => { tensor with requirement := r id } := rfl

theorem tensors_require (g : Graph) (r : TensorId → Requirement) (id : TensorId) :
    (g.require r).tensors[id.index]? =
      (g.tensors[id.index]?).map fun tensor => { tensor with requirement := r id } := by
  rw [require_eq, tensors_mapTensors]

theorem hosts_require_iff {site : Site} :
    (g.require r).Hosts site ↔ ∃ before, g.Hosts before ∧ site = before.require r := by
  rw [require_eq, hosts_mapTensors_iff]
  rfl

theorem Hosts.require {site : Site} (hosts : g.Hosts site) (r : TensorId → Requirement) :
    (g.require r).Hosts (site.require r) :=
  hosts_require_iff.mpr ⟨site, hosts, rfl⟩

@[simp] theorem undecided_require (g : Graph) (r : TensorId → Requirement) :
    (g.require r).undecided = g.undecided := by
  rw [require_eq]
  exact undecided_mapTensors fun _ _ => rfl

theorem requirement_of_getElem? {id : TensorId} {tensor : Tensor}
    (atId : g.tensors[id.index]? = some tensor) : g.requirement id = tensor.requirement := by
  simp [requirement, atId]

theorem require_requirement (g : Graph) : g.require g.requirement = g := by
  rw [require_eq]
  exact mapTensors_eq_self fun id tensor atId => by rw [requirement_of_getElem? atId]

theorem modifyTensor_require (g : Graph) (r : TensorId → Requirement) (id : TensorId)
    (demand : Requirement) :
    ((g.require r).modifyTensor id fun tensor => { tensor with requirement := demand }) =
      g.require (Function.update r id demand) := by
  rw [require_eq, require_eq]
  exact modifyTensor_mapTensors (fun tensor => by simp) fun other tensor elsewhere => by
    simp [elsewhere]

theorem requirement_require_of_lt {id : TensorId} (known : id.index < g.tensors.size) :
    (g.require r).requirement id = r id := by
  simp [requirement, tensors_require, Array.getElem?_eq_getElem known]

theorem requirement_require_le (g : Graph) (r : TensorId → Requirement) :
    (g.require r).requirement ≤ r := by
  intro id
  by_cases known : id.index < g.tensors.size
  · rw [requirement_require_of_lt known]
  · simp [requirement, tensors_require, Array.getElem?_eq_none (Nat.le_of_not_lt known)]

/-- What is asked of a tensor that no stage is wired to is no matter of the stages. -/
theorem Solves.congr {r' : TensorId → Requirement} (solves : g.Solves r) (grown : g.requirement ≤ r')
    (same : ∀ id, id.index < g.tensors.size → r' id = r id) : g.Solves r' where
  grown := grown
  met site hosts := by
    have input := same site.inputId (Array.getElem?_eq_some_iff.mp hosts.input).1
    have output := same site.outputId (Array.getElem?_eq_some_iff.mp hosts.output).1
    have met := solves.met site hosts
    unfold Site.MetBy at met ⊢
    rwa [input, output]

/-- The least requirements ask nothing of tensors that are not there. -/
theorem requirement_require (least : IsLeast {r | g.Solves r} r) :
    (g.require r).requirement = r := by
  have above : r ≤ (g.require r).requirement := by
    refine least.2 (least.1.congr (fun id => ?_) fun id known => requirement_require_of_lt known)
    by_cases known : id.index < g.tensors.size
    · rw [requirement_require_of_lt known]
      exact least.1.grown id
    · simp [requirement, Array.getElem?_eq_none (Nat.le_of_not_lt known)]
  exact le_antisymm (requirement_require_le g r) above

theorem Aligned.require (aligned : g.Aligned) : (g.require r).Aligned := by
  intro site hosts
  obtain ⟨before, hosts', rfl⟩ := hosts_require_iff.mp hosts
  exact aligned before hosts'

theorem Answerable.require (answerable : g.Answerable) : (g.require r).Answerable where
  widens site hosts := by
    obtain ⟨before, hosts', rfl⟩ := hosts_require_iff.mp hosts
    exact answerable.widens before hosts'
  fits site hosts := by
    obtain ⟨before, hosts', rfl⟩ := hosts_require_iff.mp hosts
    exact answerable.fits before hosts'

/-- Once the graph asks for the least requirements, they are what it asks for. -/
theorem solves_require (least : IsLeast {r | g.Solves r} r) :
    (g.require r).Solves (g.require r).requirement where
  grown := le_rfl
  met site hosts := by
    obtain ⟨before, hosts', rfl⟩ := hosts_require_iff.mp hosts
    rw [requirement_require least]
    exact least.1.met before hosts'

end Graph

end TensorLowering
