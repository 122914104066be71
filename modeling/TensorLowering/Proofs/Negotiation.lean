import Mathlib.Order.Basic
import TensorLowering.Proofs.Constraints
import TensorLowering.Proofs.Schedule

namespace TensorLowering

namespace Graph

variable {g : Graph} {r : TensorId → Requirement}

/-- The stages have all they ask for, and those that expand have something to ask for. -/
def Served (g : Graph) (r : TensorId → Requirement) (visited : List StageId) : Prop :=
  ∀ site, g.Hosts site → site.id ∈ visited → site.Widens ∧ site.MetBy r

/-- An expand stage whose readers are served already asks what its output asks. -/
theorem expandDemands_eq {site : Site} {widened : Nat}
    {query : StageId → Except LoweringError (TensorMap Requirement)}
    (wide : innermostWidened? site.input site.output = some widened)
    (readers : ∀ reader ∈ site.output.consumers, ∃ answer stage demand,
      query reader = .ok answer ∧ g.stages[reader.index]? = some stage ∧
        answer.get? site.outputId = some demand ∧ demand ≤ site.output.requirement) :
    site.expandDemands query g = .ok
      ((TensorMap.empty.insert site.inputId (site.output.requirement.clearAbove widened)).insert
        site.outputId site.output.requirement) := by
  simp only [Site.expandDemands, wide]
  rw [foldlM_eq_self]
  · rfl
  · intro reader member
    obtain ⟨answer, stage, demand, answered, atReader, asked, below⟩ := readers reader member
    simp only [Site.gatherFrom, answered, asked, stage_eq_ok_iff.mpr atReader, bind, Except.bind]
    refine foldlM_eq_self fun place _ => ?_
    obtain ⟨axis, position⟩ := place
    simp only [Gathered.take, Requirement.tighten_of_le (below position)]
    rfl

/-- Behind stages that are served, the answer of a stage is settled: asking its readers adds
nothing. -/
theorem stridesWithin_eq (formed : g.WellFormed) {order : List StageId}
    (ordered : g.Ordered order) {depth : Nat} {visited rest : List StageId} {site : Site}
    (hosts : g.Hosts site) (split : order.reverse = visited ++ site.id :: rest)
    (deep : visited.length < depth) (served : g.Served r visited) :
    (g.require r).stridesWithin depth site.id =
      match site.demands? r with
      | none => .error (site.stage.fault
          (.notWider site.output.name site.output.extents site.input.name site.input.extents))
      | some demands => .ok
          ((TensorMap.empty.insert site.inputId demands.1).insert site.outputId demands.2) := by
  induction depth generalizing visited rest site with
  | zero => omega
  | succ depth ih =>
    have found : (g.require r).site site.id = .ok (site.require r) := (hosts.require r).site_eq
    have kept : (site.require r).stage = site.stage := rfl
    simp only [stridesWithin, found, kept, bind, Except.bind]
    unfold Site.demands?
    cases operation : site.stage.operation with
    | copy demands mode => rfl
    | power params => rfl
    | expand offset =>
      simp only
      cases wide : innermostWidened? site.input site.output with
      | none =>
        simp only [Site.expandDemands, show innermostWidened? (site.require r).input
          (site.require r).output = none from wide]
        rfl
      | some widened =>
        have wired := formed.wired
        refine expandDemands_eq wide fun id member => ?_
        obtain ⟨reader, hosts', rfl, read⟩ := wired.site_of_mem_consumers hosts.output member
        have feeds := (hosts.feeds_iff_inputId hosts' wired).mpr read
        have later : reader.id ∈ visited := by
          have split' : order = rest.reverse ++ site.id :: visited.reverse := by
            simpa using congrArg List.reverse split
          simpa using ordered.mem_of_feeds split' feeds
        obtain ⟨before, after, between⟩ := List.append_of_mem later
        have shaped := formed.shaped hosts'.output
        obtain ⟨widens, met⟩ := served reader hosts' later
        obtain ⟨demands, asks⟩ :=
          Option.isSome_iff_exists.mp ((Site.demands?_isSome_iff (r := r) shaped).mpr widens)
        have split' : order.reverse = before ++ reader.id :: (after ++ site.id :: rest) := by
          simp [split, between]
        have deep' : before.length < depth := by
          rw [between, List.length_append, List.length_cons] at deep
          omega
        have answered := ih hosts' split' deep' fun other hosts'' member =>
          served other hosts'' (by simp [between, member])
        rw [asks] at answered
        refine ⟨_, reader.stage, demands.1, answered, hosts'.stage, ?_, ?_⟩
        · have apart : reader.inputId ≠ reader.outputId := hosts'.inputId_ne_outputId wired
          simp only [TensorMap.get?_insert, Site.require, Site.view, ← read, apart, if_true, if_false]
        · have below := (met.demands_le shaped asks le_rfl).1
          rwa [read] at below

theorem strideDemands_eq (formed : g.WellFormed) {order : List StageId}
    (ordered : g.Ordered order) {visited rest : List StageId} {site : Site} (hosts : g.Hosts site)
    (split : order.reverse = visited ++ site.id :: rest) (served : g.Served r visited) :
    (g.require r).strideDemands site.id =
      match site.demands? r with
      | none => .error (site.stage.fault
          (.notWider site.output.name site.output.extents site.input.name site.input.extents))
      | some demands => .ok
          ((TensorMap.empty.insert site.inputId demands.1).insert site.outputId demands.2) := by
  have deep : visited.length < g.stages.size + 1 := by
    have length := congrArg List.length split
    rw [List.length_reverse, ordered.length_eq, List.length_append, List.length_cons] at length
    omega
  exact stridesWithin_eq formed ordered hosts split deep served

end Graph

namespace Negotiation

open Attempt TensorLowering.Graph

variable {g : Graph}

inductive Refusal : LoweringError → Prop
  | notWider {site : Site} : ¬site.Widens → Refusal (site.stage.fault
      (.notWider site.output.name site.output.extents site.input.name site.input.extents))
  | beyondRank {tensor : Tensor} {stage : String} {position : Nat} :
      tensor.order.rank ≤ position → Refusal (tensor.fault (.demandBeyondRank stage position tensor.order.rank))
  | conflict {tensor stage : String} {axis : Axis} {existing demanded : Slot}
      {source : Option String} :
      Refusal (.negotiation (.conflict tensor axis existing demanded source stage))

/-- A demand keeps to the axes of a tensor. -/
def Within (demand : Requirement) (tensor : Tensor) : Prop :=
  ∀ position, demand.get position ≠ .any → position < tensor.extents.size

def Inside (g : Graph) (demands : List (TensorId × Requirement)) : Prop :=
  ∀ demand ∈ demands, ∀ tensor, g.tensors[demand.1.index]? = some tensor → Within demand.2 tensor

def Meets (demands : List (TensorId × Requirement)) (r : TensorId → Requirement) : Prop :=
  ∀ demand ∈ demands, demand.2 ≤ r demand.1

/-- From requirements `r` a round has come to the least ones above them that reach a goal, and has
counted nothing if nothing changed. -/
structure Raises (g : Graph) (r : TensorId → Requirement) (goal : (TensorId → Requirement) → Prop)
    (count : Nat) (after : Round) (r' : TensorId → Requirement) : Prop where
  graph : after.graph = g.require r'
  formed : (g.require r').WellFormed
  least : IsLeast {upper | r ≤ upper ∧ goal upper} r'
  counted : count = 0 ↔ r' = r

theorem Raises.grown {r r' : TensorId → Requirement} {goal : (TensorId → Requirement) → Prop}
    {count : Nat} {after : Round} (raised : Raises g r goal count after r') : r ≤ r' :=
  raised.least.1.1

/-- Requirements that only grow end where they began if and only if no step changed them. -/
theorem stays_iff {r middle r' : TensorId → Requirement} (first : r ≤ middle)
    (second : middle ≤ r') : middle = r ∧ r' = middle ↔ r' = r := by
  constructor
  · intro both
    exact both.2.trans both.1
  · intro same
    subst same
    have settled := le_antisymm first second
    exact ⟨settled.symm, settled⟩

/-- Two steps in a row reach both goals, if what lies above the first goal reaches it too. -/
theorem Raises.trans {r middle r' : TensorId → Requirement}
    {first second both : (TensorId → Requirement) → Prop} {count here : Nat} {now after : Round}
    (raised : Raises g r first count now middle) (raised' : Raises g middle second here after r')
    (stays : ∀ lower upper, lower ≤ upper → first lower → first upper)
    (split : ∀ upper, both upper ↔ first upper ∧ second upper) :
    Raises g r both (count + here) after r' where
  graph := raised'.graph
  formed := raised'.formed
  least := by
    have bounds : {upper | r ≤ upper ∧ both upper} = {upper | middle ≤ upper ∧ second upper} := by
      ext upper
      exact (and_congr_right' (split upper)).trans
        (and_assoc.symm.trans (and_congr_left' (le_iff_of_isLeast raised.least (stays _ _)).symm))
    exact bounds ▸ raised'.least
  counted := by
    rw [Nat.add_eq_zero_iff, raised.counted, raised'.counted]
    exact stays_iff raised.grown raised'.grown

theorem Meets.mono {demands : List (TensorId × Requirement)} {lower upper : TensorId → Requirement}
    (above : lower ≤ upper) (meets : Meets demands lower) : Meets demands upper :=
  fun demand member => (meets demand member).trans (above demand.1)

/-- Raising one tensor as little as possible raises all of them as little as possible. -/
theorem isLeast_update {r : TensorId → Requirement} {id : TensorId} {demand merged : Requirement}
    (joined : IsLeast {upper | r id ≤ upper ∧ demand ≤ upper} merged) :
    IsLeast {upper | r ≤ upper ∧ demand ≤ upper id} (Function.update r id merged) := by
  refine ⟨⟨le_update_iff.mpr ⟨joined.1.1, fun _ _ => le_rfl⟩, by simpa using joined.1.2⟩, ?_⟩
  intro upper reached
  obtain ⟨above, meets⟩ := reached
  exact update_le_iff.mpr ⟨joined.2 ⟨above id, meets⟩, fun other _ => above other⟩

/-- A demand that is met already fills nothing. -/
theorem Round.fill_eq_self {r : TensorId → Requirement} {round : Round}
    (now : round.graph = g.require r) (stage : String) {id : TensorId} {demand : Requirement}
    (met : demand ≤ r id) : round.fill stage id (r id) demand (r id) = round := by
  have filled : (demand.concrete.filter fun entry => !((r id).get entry.1).isConcrete) = [] := by
    rw [List.filter_eq_nil_iff]
    rintro ⟨position, slot⟩ member
    obtain ⟨rfl, asks⟩ := Requirement.mem_concrete.mp member
    have same := Slot.eq_of_le (met position) asks
    simp [same, Slot.isConcrete_iff.mpr asks]
  have graph : (round.graph.modifyTensor id fun tensor => { tensor with requirement := r id }) =
      round.graph := by
    rw [now, modifyTensor_require, Function.update_eq_self]
  simp only [fill, filled, graph, List.map_nil, List.nil_append]

/-- Why a demand on a tensor is refused, and how that is reported. -/
inductive Refuses (tensor : Tensor) (now demand : Requirement) (stage : String)
    (filler : Nat → Option String) : LoweringError → Prop
  | beyondRank {position : Nat} : demand.get position ≠ .any → tensor.order.rank ≤ position →
      Refuses tensor now demand stage filler
        (tensor.fault (.demandBeyondRank stage position tensor.order.rank))
  | conflict {position : Nat} {axis : Axis} : tensor.order.axisAt? position = some axis →
      now.get position ≠ .any → demand.get position ≠ .any →
      now.get position ≠ demand.get position →
      Refuses tensor now demand stage filler (.negotiation
        (.conflict tensor.name axis (now.get position) (demand.get position) (filler position) stage))

/-- A demand is committed whole, or it is refused and the round stays as it was. -/
theorem commit_spec {r : TensorId → Requirement} {round : Round} (now : round.graph = g.require r)
    {id : TensorId} {tensor : Tensor} (atId : g.tensors[id.index]? = some tensor) (stage : String)
    (demand : Requirement) :
    (commit stage id demand).Ensures round
      (fun count after => ∃ merged changed,
        (∀ position, demand.get position ≠ .any → position < tensor.order.rank) ∧
        (r id).merge demand = (merged, .ok changed) ∧
        after = round.fill stage id (r id) demand merged ∧ (count = 0 ↔ merged = r id))
      fun error after => after = round ∧ Refuses tensor (r id) demand stage
        (fun position => round.filledBy.lookup (id, position)) error := by
  have known : round.graph.tensor id = .ok { tensor with requirement := r id } := by
    rw [now, tensor_eq_ok_iff, tensors_require, atId]
    rfl
  refine .ask_bind known ?_
  split
  · rename_i beyond outside
    obtain ⟨asked, past⟩ := Requirement.mem_concrete.mp (List.mem_of_find?_eq_some outside)
    have large : tensor.order.rank ≤ beyond.1 := by simpa using List.find?_some outside
    exact ⟨rfl, .beyondRank (asked ▸ past) large⟩
  · rename_i inside
    have within (position : Nat) (asks : demand.get position ≠ .any) :
        position < tensor.order.rank := by
      simpa using List.find?_eq_none.mp inside _ (Requirement.mem_concrete.mpr ⟨rfl, asks⟩)
    split
    · rename_i merged joined
      obtain ⟨isLeast, unchanged⟩ := Requirement.merge_ok joined
      obtain rfl : merged = r id := by simpa using unchanged
      exact ⟨r id, false, within, joined, (Round.fill_eq_self now stage isLeast.1.2).symm, by simp⟩
    · rename_i merged joined
      have changed : merged ≠ r id := by simpa using (Requirement.merge_ok joined).2
      exact ⟨merged, true, within, joined, rfl, by simp [changed]⟩
    · rename_i reached conflict failed
      obtain ⟨existing, demanded, asked, asks, differ⟩ := Requirement.merge_conflict failed
      have bound := within _ (demanded ▸ asks)
      have atPosition : tensor.order.axisAt? conflict.position =
          some tensor.order.axes[conflict.position] := List.getElem?_eq_getElem bound
      simp only [atPosition, ensures_bind, ensures_get, ensures_throw, existing, demanded]
      rw [existing, demanded] at differ
      exact ⟨trivial, .conflict atPosition (existing ▸ asked) (demanded ▸ asks) differ⟩

/-- Committing a demand raises the requirements as little as possible. It fails only if the demand
leaves the axes of the tensor or nothing above the requirements meets it. -/
theorem commit_ensures {r : TensorId → Requirement} {round : Round}
    (now : round.graph = g.require r) (formed : (g.require r).WellFormed) {id : TensorId}
    {tensor : Tensor} (atId : g.tensors[id.index]? = some tensor) (stage : String)
    (demand : Requirement) :
    (commit stage id demand).Ensures round
      (fun count after => Within demand tensor ∧
        ∃ r', Raises g r (fun upper => demand ≤ upper id) count after r')
      fun error _ => Refusal error ∧
        ¬(Within demand tensor ∧ ∃ upper, r ≤ upper ∧ demand ≤ upper id) := by
  have found : (g.require r).tensors[id.index]? = some { tensor with requirement := r id } := by
    simp [tensors_require, atId]
  have shaped := formed.shaped found
  have rank : tensor.order.rank = tensor.extents.size := shaped.rank_eq
  refine (commit_spec now atId stage demand).mono ?_ ?_
  · rintro count after ⟨merged, changed, within, joined, rfl, counted⟩
    refine ⟨fun position asks => rank ▸ within position asks, Function.update r id merged, ?_, ?_,
      isLeast_update (Requirement.merge_ok joined).1, ?_⟩
    · simp only [Round.fill, now, modifyTensor_require]
    · rw [← modifyTensor_require]
      refine formed.modifyTensor (fun _ => rfl) fun tensor' atId' => ?_
      rw [found] at atId'
      cases atId'
      exact shaped.with_requirement within joined
    · rw [counted, Function.update_eq_self_iff]
  · rintro error after ⟨-, refused⟩
    cases refused with
    | beyondRank asks large =>
      refine ⟨.beyondRank large, fun possible => ?_⟩
      have bound := possible.1 _ asks
      omega
    | @conflict position axis atPosition asked asks differ =>
      refine ⟨.conflict, ?_⟩
      rintro ⟨-, upper, above, meets⟩
      have existing := Slot.eq_of_le (above id position) asked
      exact differ (existing.symm.trans (Slot.eq_of_le (meets position) asks))

theorem commits_ensures {r : TensorId → Requirement} {round : Round}
    (now : round.graph = g.require r) (formed : (g.require r).WellFormed) (stage : String)
    {demands : List (TensorId × Requirement)}
    (known : ∀ demand ∈ demands, ∃ tensor, g.tensors[demand.1.index]? = some tensor) :
    (sweep (fun demand => commit stage demand.1 demand.2) demands).Ensures round
      (fun count after => Inside g demands ∧ ∃ r', Raises g r (Meets demands) count after r')
      fun error _ => Refusal error ∧ ¬(Inside g demands ∧ ∃ upper, r ≤ upper ∧ Meets demands upper) := by
  refine Ensures.sweep (fun treated count after =>
    Inside g treated ∧ ∃ r', Raises g r (Meets treated) count after r') ?_ ?_
  · refine ⟨by simp [Inside], r, now, formed, ⟨⟨le_rfl, by simp [Meets]⟩, fun _ above => above.1⟩, ?_⟩
    simp
  · intro before demand rest count state split ended
    obtain ⟨inside, middle, reached⟩ := ended
    obtain ⟨tensor, atId⟩ := known demand (by simp [split])
    refine (commit_ensures reached.graph reached.formed atId stage demand.2).mono ?_ ?_
    · intro here after reached
      obtain ⟨within, r', raised⟩ := reached
      refine ⟨fun other member tensor' atId' => ?_, r', reached.trans raised
        (fun _ _ => Meets.mono) fun upper => by simp [Meets, or_imp, forall_and]⟩
      rcases List.mem_append.mp member with old | last
      · exact inside other old tensor' atId'
      · rw [List.mem_singleton] at last
        subst last
        rw [atId] at atId'
        cases atId'
        exact within
    · intro error after refused
      obtain ⟨refusal, impossible⟩ := refused
      refine ⟨refusal, fun possible => ?_⟩
      obtain ⟨inside', upper, above, meets⟩ := possible
      have treated : Meets before upper := fun other member =>
        meets other (by simp [split, member])
      exact impossible ⟨inside' demand (by simp [split]) tensor atId, upper,
        reached.least.2 ⟨above, treated⟩, meets demand (by simp [split])⟩

/-- A tensor that nothing new is asked of keeps its requirement. -/
theorem eq_of_met {r r' : TensorId → Requirement} {demands : List (TensorId × Requirement)}
    (least : IsLeast {upper | r ≤ upper ∧ Meets demands upper} r') {id : TensorId}
    (met : ∀ demand ∈ demands, demand.1 = id → demand.2 ≤ r id) : r' id = r id := by
  refine le_antisymm ?_ (least.1.1 id)
  have above : r' ≤ Function.update r' id (r id) := least.2
    ⟨le_update_iff.mpr ⟨le_rfl, fun other _ => least.1.1 other⟩, fun demand member => by
      by_cases here : demand.1 = id
      · simpa [here] using met demand member here
      · simpa [here] using least.1.2 demand member⟩
  simpa using above id

/-- The demands of a stage keep to the axes of its tensors just if those do that it does not take
over from its output. -/
theorem within_iff_demandsFit {r : TensorId → Requirement} (base : g.WellFormed)
    (formed : (g.require r).WellFormed) (aligned : g.Aligned) {site : Site} (hosts : g.Hosts site)
    {demands : Requirement × Requirement} (asks : site.demands? r = some demands) :
    Within demands.1 site.input ∧ Within demands.2 site.output ↔ site.DemandsFit := by
  unfold Site.demands? at asks
  unfold Site.DemandsFit
  cases operation : site.stage.operation with
  | copy demands mode =>
    simp only [operation, Option.some.injEq] at asks
    subst asks
    rfl
  | power params =>
    simp only [operation, Option.some.injEq] at asks
    subst asks
    have inner (tensor : Tensor) :
        Within (Requirement.empty.set 0 .compact) tensor ↔ 0 < tensor.extents.size := by
      simp only [Within, Requirement.get_set]
      constructor
      · intro within
        exact within 0 (by decide)
      · intro axes position asked
        by_cases here : position = 0
        · exact here ▸ axes
        · simp [here] at asked
    simp only [inner]
  | expand offset =>
    simp only [operation, Option.map_eq_some_iff] at asks
    obtain ⟨widened, -, rfl⟩ := asks
    have shaped := formed.shaped (hosts.require r).output
    have output : Within (r site.outputId) site.output := fun position asked =>
      shaped.rank_eq ▸ shaped.bounded position asked
    simp only [iff_true]
    refine ⟨fun position asked => ?_, output⟩
    have same : site.input.extents.size = site.output.extents.size := by
      rw [← (base.shaped hosts.input).rank_eq, ← (base.shaped hosts.output).rank_eq,
        aligned site hosts]
    rw [Requirement.get_clearAbove] at asked
    split at asked
    · exact same ▸ output position asked
    · exact absurd rfl asked

/-- What a round has reached after some stages: requirements that serve those stages and that every
solution lies above. -/
structure Settles (g : Graph) (visited : List StageId) (r : TensorId → Requirement) : Prop where
  formed : (g.require r).WellFormed
  grown : g.requirement ≤ r
  least : ∀ upper, g.Solves upper → r ≤ upper
  served : g.Served r visited
  fits : ∀ site, g.Hosts site → site.id ∈ visited → site.DemandsFit

/-- Raising the requirements for one stage more keeps what was reached: no served stage reads or
writes the input and the output of the new one in a way that matters to it. -/
theorem served_raise (base : g.WellFormed) {order : List StageId} (ordered : g.Ordered order)
    {visited rest : List StageId} {site : Site} (hosts : g.Hosts site)
    (split : order.reverse = visited ++ site.id :: rest) {r r' : TensorId → Requirement}
    (served : g.Served r visited) {demands : Requirement × Requirement}
    (asks : site.demands? r = some demands)
    (least : IsLeast {upper | r ≤ upper ∧ Meets ((TensorMap.empty.insert site.inputId
      demands.1).insert site.outputId demands.2).toList upper} r') :
    g.Served r' (visited ++ [site.id]) := by
  have wired := base.wired
  have apart := hosts.inputId_ne_outputId wired
  have split' : order = rest.reverse ++ site.id :: visited.reverse := by
    simpa using congrArg List.reverse split
  obtain ⟨-, fresh, behind⟩ := ordered.apart split'
  intro other hosts' member
  rcases List.mem_append.mp member with old | last
  · obtain ⟨widens, met⟩ := served other hosts' old
    refine ⟨widens, met.mono least.1.1 fun _ _ => eq_of_met least
      ((TensorMap.forall_mem_answer apart).mpr ⟨fun same => ?_, fun same => ?_⟩)⟩
    · -- The new stage would read what a served one writes, and so have been served before it.
      have feeds := (hosts'.feeds_iff_inputId hosts wired).mpr same
      have before := ordered.behind _ _ _ split' _ feeds
      exact absurd (List.mem_reverse.mpr old) (behind _ before)
    · have alike := hosts.id_eq_of_outputId_eq hosts' wired same
      exact absurd (List.mem_reverse.mpr (alike ▸ old)) fresh
  · rw [List.mem_singleton] at last
    obtain rfl := hosts'.unique hosts last
    have shaped := base.shaped hosts.output
    have kept (offset : AxisMap) (operation : other.stage.operation = .expand offset) :
        r' other.outputId = r other.outputId := by
      refine eq_of_met least ((TensorMap.forall_mem_answer apart).mpr
        ⟨fun same => absurd same apart, fun _ => ?_⟩)
      exact (Site.demands?_of_expand operation asks).le
    obtain ⟨below, below'⟩ := (TensorMap.forall_mem_answer apart).mp least.1.2
    refine ⟨(Site.demands?_isSome_iff shaped).mp (by rw [asks]; rfl),
      Site.MetBy.of_demands_le shaped ((Site.demands?_congr kept).trans asks) below below'⟩

theorem Settles.raise (base : g.WellFormed) {order : List StageId} (ordered : g.Ordered order)
    {visited rest : List StageId} {site : Site} (hosts : g.Hosts site)
    (split : order.reverse = visited ++ site.id :: rest) {r r' : TensorId → Requirement}
    (settled : Settles g visited r) {demands : Requirement × Requirement}
    (asks : site.demands? r = some demands) (fits : site.DemandsFit) {count : Nat} {after : Round}
    (raised : Raises g r (Meets ((TensorMap.empty.insert site.inputId demands.1).insert
      site.outputId demands.2).toList) count after r') :
    Settles g (visited ++ [site.id]) r' where
  formed := raised.formed
  grown := settled.grown.trans raised.grown
  least upper solves := by
    have above := settled.least upper solves
    exact raised.least.2 ⟨above, (TensorMap.forall_mem_answer (hosts.inputId_ne_outputId
      base.wired)).mpr ((solves.met site hosts).demands_le (base.shaped hosts.output) asks above)⟩
  served := served_raise base ordered hosts split settled.served asks raised.least
  fits other hosts' member := by
    rcases List.mem_append.mp member with old | last
    · exact settled.fits other hosts' old
    · rw [List.mem_singleton] at last
      exact hosts'.unique hosts last ▸ fits

theorem consult_ensures (base : g.WellFormed) (aligned : g.Aligned) {order : List StageId}
    (ordered : g.Ordered order) {visited rest : List StageId} {site : Site} (hosts : g.Hosts site)
    (split : order.reverse = visited ++ site.id :: rest) {r : TensorId → Requirement}
    (settled : Settles g visited r) {round : Round} (now : round.graph = g.require r) :
    (consult site.id).Ensures round
      (fun count after => ∃ r', after.graph = g.require r' ∧
        Settles g (visited ++ [site.id]) r' ∧ r ≤ r' ∧ (count = 0 ↔ r' = r))
      fun error _ => Refusal error ∧
        ¬(site.Widens ∧ site.DemandsFit ∧ ∃ upper, g.Solves upper) := by
  have apart := hosts.inputId_ne_outputId base.wired
  have shaped := base.shaped hosts.output
  have answered := strideDemands_eq base ordered hosts split settled.served
  have stage : (g.require r).stage site.id = .ok site.stage := stage_eq_ok_iff.mpr hosts.stage
  rw [← now] at answered stage
  cases asks : site.demands? r with
  | none =>
    rw [asks] at answered
    have narrow : ¬site.Widens := fun widens => by
      have wide := (Site.demands?_isSome_iff (r := r) shaped).mpr widens
      simp [asks] at wide
    exact .ask_fail answered ⟨.notWider narrow, fun possible => narrow possible.1⟩
  | some demands =>
    rw [asks] at answered
    refine .ask_bind answered (.ask_bind stage ?_)
    have within := within_iff_demandsFit base settled.formed aligned hosts asks
    have inside : Inside g ((TensorMap.empty.insert site.inputId demands.1).insert
        site.outputId demands.2).toList ↔ site.DemandsFit := by
      rw [← within, Inside, TensorMap.forall_mem_answer apart]
      simp [hosts.input, hosts.output]
    have known : ∀ entry ∈ ((TensorMap.empty.insert site.inputId demands.1).insert
        site.outputId demands.2).toList, ∃ tensor, g.tensors[entry.1.index]? = some tensor :=
      (TensorMap.forall_mem_answer apart).mpr ⟨⟨_, hosts.input⟩, _, hosts.output⟩
    refine (commits_ensures now settled.formed site.stage.name known).mono ?_ ?_
    · intro count after reached
      obtain ⟨fits, r', raised⟩ := reached
      exact ⟨r', raised.graph, settled.raise base ordered hosts split asks (inside.mp fits) raised,
        raised.grown, raised.counted⟩
    · intro error after refused
      obtain ⟨refusal, impossible⟩ := refused
      refine ⟨refusal, fun possible => ?_⟩
      obtain ⟨-, fits, upper, solves⟩ := possible
      have above := settled.least upper solves
      have below := (solves.met site hosts).demands_le shaped asks above
      exact impossible
        ⟨inside.mpr fits, upper, above, (TensorMap.forall_mem_answer apart).mpr below⟩

theorem runRound_ensures (base : g.WellFormed) (aligned : g.Aligned) :
    runRound.Ensures ⟨g, []⟩
      (fun count after => ∃ r, after.graph = g.require r ∧ Settles g g.stageIds r ∧
        (count = 0 ↔ r = g.requirement))
      fun error _ => Refusal error ∧ ¬(g.Answerable ∧ ∃ r, g.Solves r) := by
  obtain ⟨order, scheduled, ordered⟩ := base.wired.exists_schedule
  refine .ask_bind scheduled ?_
  refine (Ensures.sweep (fun visited count after => ∃ r, after.graph = g.require r ∧
    Settles g visited r ∧ (count = 0 ↔ r = g.requirement)) ?_ ?_).mono ?_ fun _ _ => id
  · refine ⟨g.requirement, (require_requirement g).symm, ?_, by simp⟩
    exact ⟨(require_requirement g).symm ▸ base, le_rfl, fun _ solves => solves.grown,
      by simp [Served], by simp⟩
  · intro visited id rest count round split reached
    obtain ⟨r, now, settled, counted⟩ := reached
    have member : id ∈ g.stageIds := (ordered.mem_iff id).mp (List.mem_reverse.mp (by simp [split]))
    obtain ⟨site, hosts, rfl⟩ := base.wired.site_of_mem member
    refine (consult_ensures base aligned ordered hosts split settled now).mono ?_ ?_
    · intro here after reached
      obtain ⟨r', now', settled', grown, counted'⟩ := reached
      refine ⟨r', now', settled', ?_⟩
      rw [Nat.add_eq_zero_iff, counted, counted']
      exact stays_iff settled.grown grown
    · intro error after refused
      obtain ⟨refusal, impossible⟩ := refused
      refine ⟨refusal, fun possible => ?_⟩
      obtain ⟨answerable, solvable⟩ := possible
      exact impossible ⟨answerable.widens site hosts, answerable.fits site hosts, solvable⟩
  · intro count after reached
    obtain ⟨r, now, settled, counted⟩ := reached
    have visited (site : Site) (member : site.id ∈ g.stageIds) : site.id ∈ order.reverse :=
      List.mem_reverse.mpr ((ordered.mem_iff site.id).mpr member)
    exact ⟨r, now, ⟨settled.formed, settled.grown, settled.least,
      fun site hosts member => settled.served site hosts (visited site member),
      fun site hosts member => settled.fits site hosts (visited site member)⟩, counted⟩

/-- A round of negotiation finds the least requirements that serve every stage. It fails only if
there are none, or if some stage has nothing to ask for or asks of axes that are not there. -/
theorem negotiate_ensures (base : g.WellFormed) (aligned : g.Aligned) :
    negotiate.Ensures g
      (fun count after => ∃ r, after = g.require r ∧ after.WellFormed ∧
        IsLeast {r | g.Solves r} r ∧ (count = 0 ↔ r = g.requirement) ∧ g.Answerable)
      fun error _ => Refusal error ∧ ¬(g.Answerable ∧ ∃ r, g.Solves r) := by
  refine ensures_negotiate.mpr ((runRound_ensures base aligned).mono ?_ fun _ _ => id)
  rintro count round ⟨r, now, settled, counted⟩
  have served (site : Site) (hosts : g.Hosts site) := settled.served site hosts hosts.mem_stageIds
  exact ⟨r, now, now ▸ settled.formed, ⟨⟨settled.grown, fun site hosts => (served site hosts).2⟩,
    settled.least⟩, counted, fun site hosts => (served site hosts).1,
    fun site hosts => settled.fits site hosts hosts.mem_stageIds⟩

/-- Where every stage is served there is nothing to negotiate. -/
theorem negotiate_of_solves (base : g.WellFormed) (aligned : g.Aligned)
    (answerable : g.Answerable) (solves : g.Solves g.requirement) : negotiate g = .ok 0 g := by
  have ran := negotiate_ensures base aligned
  unfold Ensures at ran
  cases outcome : negotiate g with
  | ok count after =>
    rw [outcome] at ran
    obtain ⟨r, rfl, -, least, counted, -⟩ := ran
    have same : r = g.requirement := le_antisymm (least.2 solves) least.1.grown
    rw [counted.mpr same, same, require_requirement]
  | error error after =>
    rw [outcome] at ran
    exact absurd ⟨answerable, _, solves⟩ ran.2

end Negotiation

end TensorLowering
