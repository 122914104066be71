import TensorLowering.Proofs.Constraints
import TensorLowering.Proofs.Reachable

/-!
What an expand stage asks of the strides of its tensors. It asks all readers of its output first,
and these may expand as well. Data does not flow in circles, so the questions come to an end; the
answer joins what is asked of the output, in whatever order the readers are asked.
-/

namespace TensorLowering

open TensorLowering.Graph

namespace Graph

/-- Tells what a stage asks of the strides of its tensors. -/
abbrev StrideQuery := StageId → Except LoweringError (TensorMap Requirement)

variable {g : Graph} {site : Site} {query query' : StrideQuery}

/-! ### The questions come to an end -/

/-- The reader is asked before the stage can answer. -/
inductive AskedBy (g : Graph) : StageId → StageId → Prop
  | intro {site : Site} {offset : AxisMap} {reader : StageId} : g.Hosts site →
      site.stage.operation = .expand offset → reader ∈ site.output.consumers →
      AskedBy g reader site.id

theorem Wired.wellFounded_askedBy (wired : g.Wired) : WellFounded g.AskedBy := by
  obtain ⟨turn, -, earlier⟩ := wired.exists_turn
  refine Subrelation.wf ?_ (measure turn).wf
  rintro reader _ ⟨hosts, -, reads⟩
  exact earlier ((hosts.mem_output_consumers_iff wired).mp reads)

theorem Site.expandDemands_congr
    (same : ∀ reader ∈ site.output.consumers, query reader = query' reader) :
    site.expandDemands query g = site.expandDemands query' g := by
  unfold expandDemands
  split
  · rfl
  · rename_i widened _
    have alike : ∀ reader ∈ site.output.consumers, ∀ now,
        site.gatherFrom (site.output.order.axes.take (widened + 1)).zipIdx query g now reader =
          site.gatherFrom (site.output.order.axes.take (widened + 1)).zipIdx query' g now reader :=
      fun reader member now => by simp only [gatherFrom, same reader member]
    exact congrArg (· >>= _) (foldlM_congr alike)

/-- More depth than there are stages changes no answer. -/
theorem Wired.stridesWithin_eq_strideDemands (wired : g.Wired) {depth : Nat}
    (deep : g.stages.size < depth) (id : StageId) :
    g.stridesWithin depth id = g.strideDemands id := by
  obtain ⟨turn, bound, earlier⟩ := wired.exists_turn
  -- Each question goes to a stage whose turn is earlier, so one depth less is enough for it.
  have stable : ∀ depth depth' id, turn id < depth → turn id < depth' →
      g.stridesWithin depth id = g.stridesWithin depth' id := by
    intro depth
    induction depth with
    | zero => intro _ _ impossible; omega
    | succ depth ih =>
      intro depth' id deep deep'
      obtain ⟨depth', rfl⟩ := Nat.exists_eq_add_one_of_ne_zero (Nat.ne_zero_of_lt deep')
      cases found : g.site id with
      | error error => simp only [stridesWithin, found, bind, Except.bind]
      | ok site =>
        obtain ⟨rfl, hosts⟩ := site_eq_ok_iff.mp found
        simp only [stridesWithin, found, bind, Except.bind]
        split
        · rfl
        · rfl
        · refine Site.expandDemands_congr fun reader reads => ?_
          have before := earlier ((hosts.mem_output_consumers_iff wired).mp reads)
          exact ih depth' reader (by omega) (by omega)
  have few := bound id
  exact stable _ _ id (by omega) (by omega)

theorem Wired.stages_of_consumers (wired : g.Wired) (hosts : g.Hosts site) :
    ∀ reader ∈ site.output.consumers, ∃ stage, g.stages[reader.index]? = some stage := by
  intro reader member
  obtain ⟨stage, atReader, -⟩ := (wired.readers hosts.output).mp member
  exact ⟨stage, atReader⟩

/-- The answers satisfy the equation that the questions follow, with no bound on their depth. -/
theorem Wired.strideDemands_of_expand (wired : g.Wired) (hosts : g.Hosts site) {offset : AxisMap}
    (expands : site.stage.operation = .expand offset) :
    g.strideDemands site.id = site.expandDemands g.strideDemands g := by
  have deeper := wired.stridesWithin_eq_strideDemands
    (show g.stages.size < g.stages.size + 2 by omega) site.id
  rw [← deeper]
  simp only [stridesWithin, hosts.site_eq, expands, bind, Except.bind]
  rfl

/-! ### Joining what is asked of the output -/

namespace Site

/-- The axes and positions of the output of which the input is a view. -/
def shared (site : Site) (widened : Nat) : List (Axis × Nat) :=
  (site.output.order.axes.take (widened + 1)).zipIdx

/-- The reader asks for this slot at a position of the output. -/
def Hears (site : Site) (query : StrideQuery) (reader : StageId) (position : Nat)
    (slot : Slot) : Prop :=
  ∃ reply demands, query reader = .ok reply ∧ reply.get? site.outputId = some demands ∧
    slot = demands.get position

/-- What a position of the output is asked for: so far, and by the readers. -/
def askedAt (site : Site) (query : StrideQuery) (position : Nat) : Set Slot :=
  {slot | slot = site.output.requirement.get position ∨
    ∃ reader ∈ site.output.consumers, site.Hears query reader position slot}

/-- Requirements that keep what the output is asked so far and meet some readers as far as the input
is a view of it. -/
def upperJoins (site : Site) (query : StrideQuery) (widened : Nat) (readers : List StageId) :
    Set Requirement :=
  {upper | site.output.requirement ≤ upper ∧
    ∀ position slot, (position ≤ widened ∧ ∃ reader ∈ readers, site.Hears query reader position slot) →
      slot ≤ upper.get position}

/-- What was gathered from some readers, all of which answered. -/
structure Joins (site : Site) (query : StrideQuery) (widened : Nat) (readers : List StageId)
    (gathered : Gathered) : Prop where
  answered : ∀ reader ∈ readers, ∃ reply, query reader = .ok reply
  least : IsLeast (site.upperJoins query widened readers) gathered.output
  input : gathered.input = gathered.output.clearAbove widened

/-- The readers of a stage ask for different strides of its output. -/
def Disagrees (site : Site) (error : LoweringError) : Prop :=
  ∃ axis existing demanded source reader,
    error = .negotiation (.conflict site.output.name axis existing demanded source reader)

end Site

variable {widened : Nat}

/-- Taking a demand at a position of the view tightens the output, and the input along with it. -/
theorem take_eq_ok (name reader : String) (axis : Axis) {demands output : Requirement}
    {position : Nat} {changed : Bool} {gathered : Gathered} (within : position ≤ widened)
    (input : gathered.input = gathered.output.clearAbove widened)
    (tightened : gathered.output.tighten position (demands.get position) = .ok (output, changed)) :
    ∃ filledBy, gathered.take name reader demands (axis, position) =
      .ok ⟨output, output.clearAbove widened, filledBy⟩ := by
  have entered := Requirement.eq_of_tighten_ok tightened
  simp only [Gathered.take, tightened]
  cases changed with
  | true =>
    refine ⟨(position, reader) :: gathered.filledBy, ?_⟩
    simp only [entered, if_true, Requirement.clearAbove_set within, ← input]
    rfl
  | false =>
    refine ⟨gathered.filledBy, ?_⟩
    simp only [entered, Bool.false_eq_true, if_false, ← input]
    rfl

/-- What one reader asks of the view is added as a list of demands would be. -/
theorem foldlM_take (name reader : String) (demands : Requirement) {places : List (Axis × Nat)}
    (within : ∀ place ∈ places, place.2 ≤ widened) (gathered : Gathered)
    (input : gathered.input = gathered.output.clearAbove widened) :
    match gathered.output.tightenAll (places.map fun place => (place.2, demands.get place.2)) with
    | (after, .ok _) => ∃ filledBy, places.foldlM (Gathered.take name reader demands) gathered =
        .ok ⟨after, after.clearAbove widened, filledBy⟩
    | (_, .error _) => ∃ axis existing demanded source,
        places.foldlM (Gathered.take name reader demands) gathered =
          .error (.negotiation (.conflict name axis existing demanded source reader)) := by
  induction places generalizing gathered with
  | nil => exact ⟨gathered.filledBy, by rw [← input]; rfl⟩
  | cons place rest ih =>
    obtain ⟨axis, position⟩ := place
    obtain ⟨here, later⟩ := List.forall_mem_cons.mp within
    simp only [List.map_cons, Requirement.tightenAll, List.foldlM_cons]
    cases tightened : gathered.output.tighten position (demands.get position) with
    | error conflict =>
      refine ⟨axis, conflict.existing, conflict.demanded, gathered.filledBy.lookup position, ?_⟩
      simp only [Gathered.take, tightened]
      rfl
    | ok outcome =>
      obtain ⟨output, changed⟩ := outcome
      obtain ⟨filledBy, taken⟩ := take_eq_ok name reader axis here input tightened
      have added := ih later ⟨output, output.clearAbove widened, filledBy⟩ rfl
      simp only [taken, bind, Except.bind]
      cases entered : output.tightenAll (rest.map fun place => (place.2, demands.get place.2)) with
      | mk after outcome => cases outcome <;> simpa only [entered, Except.map] using added

/-- The places of the view are the positions up to the widened one. -/
theorem Site.exists_mem_shared_iff (below : widened < site.output.order.rank) {position : Nat} :
    (∃ axis, (axis, position) ∈ site.shared widened) ↔ position ≤ widened := by
  simp only [shared, List.mem_zipIdx_iff_getElem?, List.getElem?_take]
  constructor
  · rintro ⟨axis, found⟩
    split at found
    · omega
    · cases found
  · intro within
    have bound : position < site.output.order.axes.length := within.trans_lt below
    exact ⟨site.output.order.axes[position], by simp [Nat.lt_succ_of_le within, bound]⟩

namespace Site

variable {readers : List StageId} {gathered : Gathered}

/-- What lies above the joined requirement meets the readers that were asked, so only a new one is
left to meet. -/
theorem Joins.mem_upperJoins_iff (joins : site.Joins query widened readers gathered)
    {reader : StageId} {upper : Requirement} :
    upper ∈ site.upperJoins query widened (readers ++ [reader]) ↔ gathered.output ≤ upper ∧
      ∀ position slot, position ≤ widened → site.Hears query reader position slot →
        slot ≤ upper.get position := by
  rw [le_iff_of_isLeast joins.least fun above met position slot asked =>
    (met position slot asked).trans (above position), and_assoc, upperJoins, Set.mem_ofPred_eq]
  refine and_congr_right fun _ => ?_
  constructor
  · intro met
    refine ⟨fun position slot asked => ?_, fun position slot within hears => ?_⟩
    · obtain ⟨within, other, member, hears⟩ := asked
      exact met position slot ⟨within, other, by simp [member], hears⟩
    · exact met position slot ⟨within, reader, by simp, hears⟩
  · rintro ⟨met, met'⟩ position slot ⟨within, other, member, hears⟩
    rcases List.mem_append.mp member with old | last
    · exact met position slot ⟨within, other, old, hears⟩
    · exact met' position slot within (List.mem_singleton.mp last ▸ hears)

theorem hears_iff {reader : StageId} {reply : TensorMap Requirement}
    (answer : query reader = .ok reply) {position : Nat} {slot : Slot} :
    site.Hears query reader position slot ↔ ∃ demands, reply.get? site.outputId = some demands ∧
      slot = demands.get position := by
  simp [Hears, answer]

/-- A reader that asks is met by what is above the joined requirement and its demands for the
view. -/
theorem Joins.upperJoins_eq (joins : site.Joins query widened readers gathered)
    (below : widened < site.output.order.rank) {reader : StageId} {reply : TensorMap Requirement}
    {demands : Requirement} (answer : query reader = .ok reply)
    (asks : reply.get? site.outputId = some demands) :
    site.upperJoins query widened (readers ++ [reader]) = {upper | gathered.output ≤ upper ∧
      ∀ demand ∈ (site.shared widened).map fun place => (place.2, demands.get place.2),
        demand.2 ≤ upper.get demand.1} := by
  ext upper
  rw [joins.mem_upperJoins_iff]
  refine and_congr_right fun _ => ?_
  constructor
  · intro met demand member
    obtain ⟨place, member', rfl⟩ := List.mem_map.mp member
    exact met place.2 _ ((exists_mem_shared_iff below).mp ⟨place.1, member'⟩)
      ((hears_iff answer).mpr ⟨demands, asks, rfl⟩)
  · intro met position slot inside hears
    obtain ⟨demands', asks', rfl⟩ := (hears_iff answer).mp hears
    obtain rfl := Option.some.inj (asks.symm.trans asks')
    obtain ⟨axis, member⟩ := (exists_mem_shared_iff below).mpr inside
    exact met _ (List.mem_map_of_mem (f := fun place => (place.2, demands.get place.2)) member)

/-- Asking one reader more joins what it asks, unless it does not answer or asks for another stride
than was asked before. -/
theorem Joins.gatherFrom (joins : site.Joins query widened readers gathered)
    (shaped : site.output.Shaped) (below : widened < site.output.order.rank) {reader : StageId}
    {stage : Stage} (atReader : g.stages[reader.index]? = some stage) :
    Yields (site.gatherFrom (site.shared widened) query g gathered reader)
      (site.Joins query widened (readers ++ [reader]))
      fun error => query reader = .error error ∨
        site.Disagrees error ∧ site.upperJoins query widened (readers ++ [reader]) = ∅ := by
  cases answer : query reader with
  | error error => simp [Yields, Site.gatherFrom, answer, bind, Except.bind]
  | ok reply =>
    have answered : ∀ other ∈ readers ++ [reader], ∃ reply, query other = .ok reply := by
      intro other member
      rcases List.mem_append.mp member with old | last
      · exact joins.answered other old
      · exact ⟨reply, List.mem_singleton.mp last ▸ answer⟩
    simp only [Site.gatherFrom, answer, bind, Except.bind]
    cases asks : reply.get? site.outputId with
    | none =>
      refine ⟨answered, ?_, joins.input⟩
      have same : site.upperJoins query widened (readers ++ [reader]) = Set.Ici gathered.output := by
        ext upper
        simp [joins.mem_upperJoins_iff, hears_iff answer, asks]
      exact same ▸ isLeast_Ici
    | some demands =>
      simp only [stage_eq_ok_iff.mpr atReader]
      have same := joins.upperJoins_eq below answer asks
      have within : ∀ place ∈ site.shared widened, place.2 ≤ widened :=
        fun place member => (exists_mem_shared_iff below).mp ⟨place.1, member⟩
      have bound : ∀ demand ∈ (site.shared widened).map fun place => (place.2, demands.get place.2),
          demand.1 < maxAxes := by
        intro demand member
        obtain ⟨place, member', rfl⟩ := List.mem_map.mp member
        exact ((within place member').trans_lt below).trans_le shaped.rank_le
      have spec := Requirement.tightenAll_spec gathered.output _ bound
      have added := foldlM_take site.output.name stage.name demands within gathered joins.input
      cases entered : gathered.output.tightenAll
          ((site.shared widened).map fun place => (place.2, demands.get place.2)) with
      | mk after outcome =>
        rw [entered] at spec added
        cases outcome with
        | ok changed =>
          obtain ⟨filledBy, folded⟩ := added
          rw [folded]
          exact ⟨answered, same ▸ spec.1, rfl⟩
        | error conflict =>
          obtain ⟨axis, existing, demanded, source, folded⟩ := added
          rw [folded]
          refine .inr ⟨⟨axis, existing, demanded, source, stage.name, rfl⟩, ?_⟩
          exact Set.eq_empty_of_forall_notMem fun upper member => spec ⟨upper, same.subset member⟩

theorem upperJoins_anti {readers' : List StageId} (subset : readers ⊆ readers') :
    site.upperJoins query widened readers' ⊆ site.upperJoins query widened readers := by
  rintro upper ⟨above, met⟩
  refine ⟨above, ?_⟩
  rintro position slot ⟨within, reader, member, hears⟩
  exact met position slot ⟨within, reader, subset member, hears⟩

theorem lt_rank_of_widensAt {position : Nat} (widens : site.WidensAt position) :
    position < site.output.order.rank := by
  obtain ⟨axis, atPosition, -⟩ := widens
  exact (List.getElem?_eq_some_iff.mp atPosition).1

/-- An expand stage with a wider output answers what all readers ask together. It fails only as a
reader does, or if they disagree. -/
theorem expandDemands_spec (query : StrideQuery) (shaped : site.output.Shaped)
    (known : ∀ reader ∈ site.output.consumers, ∃ stage, g.stages[reader.index]? = some stage)
    (wide : IsLeast {position | site.WidensAt position} widened) :
    Yields (site.expandDemands query g)
      (fun answer => ∃ gathered, site.Joins query widened site.output.consumers gathered ∧
        answer = (TensorMap.empty.insert site.inputId gathered.input).insert site.outputId
          gathered.output)
      fun error => (∃ reader ∈ site.output.consumers, query reader = .error error) ∨
        site.Disagrees error ∧ site.upperJoins query widened site.output.consumers = ∅ := by
  have below := lt_rank_of_widensAt wide.1
  have start : site.Joins query widened [] ⟨site.output.requirement,
      site.output.requirement.clearAbove widened, []⟩ :=
    ⟨by simp, ⟨⟨le_rfl, by simp⟩, fun _ member => member.1⟩, rfl⟩
  simp only [expandDemands, (innermostWidened?_eq_some_iff shaped).mpr wide]
  refine (Yields.foldlM (site.Joins query widened) start ?_).bind fun gathered joins =>
    ⟨gathered, joins, rfl⟩
  intro before reader rest now split joins
  obtain ⟨stage, atReader⟩ := known reader (by simp [split])
  refine (joins.gatherFrom shaped below atReader).mono (fun _ joins => joins) fun error failed => ?_
  refine failed.imp (fun failed => ⟨reader, by simp [split], failed⟩) fun disagree => ?_
  refine ⟨disagree.1, Set.subset_eq_empty (upperJoins_anti ?_) disagree.2⟩
  simp [split]

theorem expandDemands_of_narrow (shaped : site.output.Shaped)
    (narrow : ¬∃ position, site.WidensAt position) :
    site.expandDemands query g = .error (site.stage.fault
      (.notWider site.output.name site.output.extents site.input.name site.input.extents)) := by
  simp only [expandDemands, (innermostWidened?_eq_none_iff shaped).mpr narrow]
  rfl

/-- The readers can be served together unless some of them clash at a position of the view. -/
theorem upperJoins_eq_empty_iff (query : StrideQuery) (shaped : site.output.Shaped)
    (below : widened < site.output.order.rank) :
    site.upperJoins query widened site.output.consumers = ∅ ↔
      ∃ position ≤ widened, Slot.Clash (site.askedAt query position) := by
  have bounded (r : Requirement) := r.exists_upper_iff
    (fun position slot => position ≤ widened ∧
      ∃ reader ∈ site.output.consumers, site.Hears query reader position slot)
    fun {position _} asked => (asked.1.trans_lt below).trans_le shaped.rank_le
  rw [← Set.not_nonempty_iff_eq_empty, Set.Nonempty]
  simp only [upperJoins, Set.mem_ofPred_eq, bounded, not_forall, not_not]
  refine exists_congr fun position => ?_
  by_cases within : position ≤ widened
  · simp [within, askedAt]
  · simp [within, Slot.Clash]

/-- Up to the widened position the answer for the output joins what it is asked so far and what the
readers ask. -/
theorem Joins.isGreatest_get (joins : site.Joins query widened site.output.consumers gathered)
    {position : Nat} (within : position ≤ widened) :
    IsGreatest (site.askedAt query position) (gathered.output.get position) := by
  have greatest := Requirement.isGreatest_get _ joins.least position
  simpa only [within, true_and, askedAt] using greatest

/-- Past the widened position readers are not heard. -/
theorem Joins.get_eq (joins : site.Joins query widened readers gathered) {position : Nat}
    (past : widened < position) :
    gathered.output.get position = site.output.requirement.get position := by
  have asked := (Requirement.isGreatest_get _ joins.least position).1
  exact asked.resolve_right fun asked => absurd asked.1 (Nat.not_le.mpr past)

/-- What is joined does not depend on how it was gathered. -/
theorem Joins.unique {gathered' : Gathered} (joins : site.Joins query widened readers gathered)
    (joins' : site.Joins query widened readers gathered') :
    gathered.input = gathered'.input ∧ gathered.output = gathered'.output := by
  have output := joins.least.unique joins'.least
  exact ⟨by rw [joins.input, joins'.input, output], output⟩

theorem expandDemands_eq_ok_iff (shaped : site.output.Shaped)
    (known : ∀ reader ∈ site.output.consumers, ∃ stage, g.stages[reader.index]? = some stage)
    {answer : TensorMap Requirement} :
    site.expandDemands query g = .ok answer ↔
      ∃ widened gathered, IsLeast {position | site.WidensAt position} widened ∧
        site.Joins query widened site.output.consumers gathered ∧
        answer = (TensorMap.empty.insert site.inputId gathered.input).insert site.outputId
          gathered.output := by
  constructor
  · intro answered
    by_cases widens : ∃ position, site.WidensAt position
    · classical
      have wide : IsLeast {position | site.WidensAt position} _ := Nat.isLeast_find widens
      obtain ⟨gathered, joins, same⟩ := (expandDemands_spec query shaped known wide).of_ok answered
      exact ⟨_, gathered, wide, joins, same⟩
    · rw [expandDemands_of_narrow shaped widens] at answered
      cases answered
  · rintro ⟨widened, gathered, wide, joins, rfl⟩
    have spec := expandDemands_spec query shaped known wide
    cases outcome : site.expandDemands query g with
    | ok answer =>
      obtain ⟨gathered', joins', rfl⟩ := spec.of_ok outcome
      obtain ⟨input, output⟩ := joins.unique joins'
      rw [input, output]
    | error error =>
      rcases spec.of_error outcome with ⟨reader, member, failed⟩ | ⟨-, none⟩
      · obtain ⟨reply, answer⟩ := joins.answered reader member
        rw [failed] at answer
        cases answer
      · exact absurd joins.least.1 (Set.eq_empty_iff_forall_notMem.mp none _)

end Site

/-! ### The order of the readers -/

/-- The graph with other lists of readers. -/
def withReaders (g : Graph) (readers : TensorId → List StageId) : Graph :=
  g.mapTensors fun id tensor => { tensor with consumers := readers id }

def Site.withReaders (site : Site) (readers : TensorId → List StageId) : Site :=
  site.view (fun id tensor => { tensor with consumers := readers id }) fun stage => stage

variable {readers : TensorId → List StageId}

theorem hosts_withReaders_iff :
    (g.withReaders readers).Hosts site ↔
      ∃ before, g.Hosts before ∧ site = before.withReaders readers :=
  hosts_mapTensors_iff

theorem Site.joins_withReaders_iff {gathered : Gathered}
    (perm : (readers site.outputId).Perm site.output.consumers)
    (same : ∀ id reply, query' id = .ok reply ↔ query id = .ok reply) :
    (site.withReaders readers).Joins query' widened (readers site.outputId) gathered ↔
      site.Joins query widened site.output.consumers gathered := by
  have upper : (site.withReaders readers).upperJoins query' widened (readers site.outputId) =
      site.upperJoins query widened site.output.consumers := by
    simp only [upperJoins, Hears, same, perm.mem_iff]
    rfl
  constructor
  · intro joins
    refine ⟨fun reader member => ?_, upper ▸ joins.least, joins.input⟩
    simpa only [same] using joins.answered reader (perm.mem_iff.mpr member)
  · intro joins
    refine ⟨fun reader member => ?_, upper ▸ joins.least, joins.input⟩
    simpa only [same] using joins.answered reader (perm.mem_iff.mp member)

theorem Site.expandDemands_withReaders (shaped : site.output.Shaped)
    (known : ∀ reader ∈ site.output.consumers, ∃ stage, g.stages[reader.index]? = some stage)
    (perm : (readers site.outputId).Perm site.output.consumers)
    (same : ∀ id reply, query' id = .ok reply ↔ query id = .ok reply)
    {answer : TensorMap Requirement} :
    (site.withReaders readers).expandDemands query' (g.withReaders readers) = .ok answer ↔
      site.expandDemands query g = .ok answer := by
  have shaped' : (site.withReaders readers).output.Shaped :=
    ⟨shaped.nodup, shaped.axes, shaped.bounded, shaped.resolved⟩
  have known' : ∀ reader ∈ (site.withReaders readers).output.consumers,
      ∃ stage, (g.withReaders readers).stages[reader.index]? = some stage :=
    fun reader member => known reader (perm.mem_iff.mp member)
  rw [expandDemands_eq_ok_iff shaped known, expandDemands_eq_ok_iff shaped' known']
  refine exists₂_congr fun widened gathered => and_congr_right fun _ => and_congr_left fun _ => ?_
  exact joins_withReaders_iff perm same

/-- In which order the readers of each tensor are asked changes no answer. -/
theorem stridesWithin_withReaders (formed : g.WellFormed)
    (perm : ∀ {id : TensorId} {tensor : Tensor}, g.tensors[id.index]? = some tensor →
      (readers id).Perm tensor.consumers)
    {depth : Nat} {id : StageId} {answer : TensorMap Requirement} :
    (g.withReaders readers).stridesWithin depth id = .ok answer ↔
      g.stridesWithin depth id = .ok answer := by
  induction depth generalizing id answer with
  | zero => exact Iff.rfl
  | succ depth ih =>
    cases found : g.site id with
    | error error =>
      have missing : (g.withReaders readers).stridesWithin (depth + 1) id ≠ .ok answer := by
        intro answered
        simp only [stridesWithin, bind_eq_ok, site_eq_ok_iff] at answered
        obtain ⟨site, ⟨rfl, hosts⟩, -⟩ := answered
        obtain ⟨before, hosts', rfl⟩ := hosts_withReaders_iff.mp hosts
        have known : g.site (before.withReaders readers).id = .ok before := hosts'.site_eq
        rw [known] at found
        cases found
      refine iff_of_false missing ?_
      simp [stridesWithin, found, bind, Except.bind]
    | ok site =>
      obtain ⟨rfl, hosts⟩ := site_eq_ok_iff.mp found
      have hosts' : (g.withReaders readers).Hosts (site.withReaders readers) :=
        hosts_withReaders_iff.mpr ⟨site, hosts, rfl⟩
      have found' : (g.withReaders readers).site site.id = .ok (site.withReaders readers) :=
        hosts'.site_eq
      have kept : (site.withReaders readers).stage = site.stage := rfl
      simp only [stridesWithin, found, found', kept, bind, Except.bind]
      split
      · exact Iff.rfl
      · exact Iff.rfl
      · exact Site.expandDemands_withReaders (formed.shaped hosts.output)
          (formed.wired.stages_of_consumers hosts) (perm hosts.output) fun _ _ => ih

/-! ### What can go wrong -/

/-- If a stage does not answer, then some expand stage is not wider than its input, or its readers
disagree. -/
theorem WellFormed.strideDemands_error (formed : g.WellFormed) (hosts : g.Hosts site)
    {error : LoweringError} (failed : g.strideDemands site.id = .error error) :
    ∃ other, g.Hosts other ∧ (other.Disagrees error ∨
      (¬∃ position, other.WidensAt position) ∧ error = other.stage.fault
        (.notWider other.output.name other.output.extents other.input.name other.input.extents)) := by
  have wired := formed.wired
  induction same : site.id using wired.wellFounded_askedBy.induction generalizing site with
  | h id ih =>
    subst same
    have shaped := formed.shaped hosts.output
    cases operation : site.stage.operation with
    | copy demands mode =>
      simp [strideDemands, stridesWithin, hosts.site_eq, operation, bind, Except.bind, pure,
        Except.pure] at failed
    | power params =>
      simp [strideDemands, stridesWithin, hosts.site_eq, operation, bind, Except.bind, pure,
        Except.pure] at failed
    | expand offset =>
      rw [wired.strideDemands_of_expand hosts operation] at failed
      by_cases widens : ∃ position, site.WidensAt position
      · classical
        have spec := Site.expandDemands_spec g.strideDemands shaped
          (wired.stages_of_consumers hosts) (Nat.isLeast_find widens)
        rcases spec.of_error failed with ⟨reader, member, failed'⟩ | ⟨disagree, -⟩
        · obtain ⟨other, hosts', rfl, -⟩ := wired.site_of_mem_consumers hosts.output member
          exact ih _ ⟨hosts, operation, member⟩ hosts' failed' rfl
        · exact ⟨site, hosts, .inl disagree⟩
      · rw [Site.expandDemands_of_narrow shaped widens] at failed
        exact ⟨site, hosts, .inr ⟨widens, (Except.error.inj failed).symm⟩⟩

/-- What an expand stage asks of the strides of its tensors. It asks the readers of its output, these
may ask theirs, but no chain of questions goes on for ever, and the answers satisfy the equation of
the questions whatever depth is allowed. If no answer comes, then somewhere an expand stage is not
wider than its input, or its readers disagree. Where the stage is wider and all readers answer, it
fails exactly if two of those who ask want different strides at a position of the view. Otherwise it
joins what is asked at the positions of the view, leaves the others of the output as they are, and
asks its input for the view and for nothing else. In which order readers are asked does not
matter. -/
theorem Reachable.strideQuery_exact (reachable : g.Reachable) (hosts : g.Hosts site)
    {offset : AxisMap} (expands : site.stage.operation = .expand offset) :
    (Acc g.AskedBy site.id ∧ g.strideDemands site.id = site.expandDemands g.strideDemands g ∧
      ∀ depth, g.stages.size < depth → g.stridesWithin depth site.id = g.strideDemands site.id) ∧
    (∀ error, g.strideDemands site.id = .error error → ∃ other, g.Hosts other ∧
      (other.Disagrees error ∨ (¬∃ position, other.WidensAt position) ∧
        error = other.stage.fault (.notWider other.output.name other.output.extents
          other.input.name other.input.extents))) ∧
    ((¬∃ position, site.WidensAt position) →
      g.strideDemands site.id = .error (site.stage.fault
        (.notWider site.output.name site.output.extents site.input.name site.input.extents))) ∧
    (∀ widened, IsLeast {position | site.WidensAt position} widened →
      (∀ reader ∈ site.output.consumers, ∃ reply, g.strideDemands reader = .ok reply) →
      ((∃ error, g.strideDemands site.id = .error error ∧ site.Disagrees error) ↔
        ∃ position ≤ widened, Slot.Clash (site.askedAt g.strideDemands position)) ∧
      ((¬∃ position ≤ widened, Slot.Clash (site.askedAt g.strideDemands position)) →
        ∃ input output, g.strideDemands site.id =
            .ok ((TensorMap.empty.insert site.inputId input).insert site.outputId output) ∧
          (∀ position ≤ widened,
            IsGreatest (site.askedAt g.strideDemands position) (output.get position) ∧
              input.get position = output.get position) ∧
          ∀ position, widened < position →
            output.get position = site.output.requirement.get position ∧
              input.get position = .any)) ∧
    ∀ readers : TensorId → List StageId,
      (∀ (id : TensorId) tensor, g.tensors[id.index]? = some tensor →
        (readers id).Perm tensor.consumers) →
      ∀ answer, (g.withReaders readers).strideDemands site.id = .ok answer ↔
        g.strideDemands site.id = .ok answer := by
  have formed := reachable.wellFormed
  have wired := formed.wired
  have shaped := formed.shaped hosts.output
  have equation := wired.strideDemands_of_expand hosts expands
  refine ⟨⟨wired.wellFounded_askedBy.apply site.id, equation,
      fun depth deep => wired.stridesWithin_eq_strideDemands deep site.id⟩,
    fun error failed => formed.strideDemands_error hosts failed,
    fun narrow => equation.trans (Site.expandDemands_of_narrow shaped narrow),
    fun widened wide answered => ?_,
    fun readers perm answer => stridesWithin_withReaders formed fun {id tensor} => perm id tensor⟩
  have spec := Site.expandDemands_spec g.strideDemands shaped
    (wired.stages_of_consumers hosts) wide
  have clash := Site.upperJoins_eq_empty_iff g.strideDemands shaped
    (Site.lt_rank_of_widensAt wide.1)
  rw [← equation] at spec
  rw [← clash]
  cases outcome : g.strideDemands site.id with
  | ok answer =>
    obtain ⟨gathered, joins, rfl⟩ := spec.of_ok outcome
    refine ⟨iff_of_false (by simp) fun none => ?_, fun _ => ⟨gathered.input, gathered.output, rfl,
      fun position within => ?_, fun position past => ?_⟩⟩
    · exact Set.eq_empty_iff_forall_notMem.mp none _ joins.least.1
    · refine ⟨joins.isGreatest_get within, ?_⟩
      rw [joins.input, Requirement.get_clearAbove, if_pos within]
    · refine ⟨joins.get_eq past, ?_⟩
      rw [joins.input, Requirement.get_clearAbove, if_neg (Nat.not_le.mpr past)]
  | error error =>
    rcases spec.of_error outcome with ⟨reader, member, failed⟩ | ⟨disagree, none⟩
    · obtain ⟨reply, answer⟩ := answered reader member
      rw [failed] at answer
      cases answer
    · exact ⟨iff_of_true ⟨error, rfl, disagree⟩ none, fun possible => absurd none possible⟩

/-- A plane that is given a row more, and from that two rows more again. One reader asks for dense
rows of the first, another for a stride between the rows of the second. -/
def stackedPlane : Graph where
  name := "plane"
  tensors := #[
    { Tensor.fresh "given" .u8 { w := some 4, h := some 2 } .input with consumers := [⟨0⟩] },
    { Tensor.fresh "tall" .u8 { w := some 4, h := some 3 } .intermediate with
      producer := some ⟨0⟩, consumers := [⟨1⟩, ⟨2⟩] },
    { Tensor.fresh "taller" .u8 { w := some 4, h := some 5 } .intermediate with
      producer := some ⟨1⟩, consumers := [⟨3⟩] },
    { Tensor.fresh "copied" .u8 { w := some 4, h := some 3 } .intermediate with
      producer := some ⟨2⟩ },
    { Tensor.fresh "taken" .u8 { w := some 4, h := some 5 } .intermediate with
      producer := some ⟨3⟩ }]
  stages := #[
    ⟨"heighten", none, [⟨0⟩], [⟨1⟩], .expand {}⟩,
    ⟨"heighten more", none, [⟨1⟩], [⟨2⟩], .expand {}⟩,
    ⟨"copy", none, [⟨1⟩], [⟨3⟩], .copy { input := Requirement.empty.set 0 .compact } none⟩,
    ⟨"take", none, [⟨2⟩], [⟨4⟩], .copy { input := Requirement.empty.set 1 (.fixed 8) } none⟩]

theorem reachable_stackedPlane : stackedPlane.Reachable := by
  let given := ((empty "plane").addTensor "given" .u8 { w := some 4, h := some 2 } .input).2
  let tall := (given.addTensor "tall" .u8 { w := some 4, h := some 3 } .intermediate).2
  let taller := (tall.addTensor "taller" .u8 { w := some 4, h := some 5 } .intermediate).2
  let copied := (taller.addTensor "copied" .u8 { w := some 4, h := some 3 } .intermediate).2
  let taken := (copied.addTensor "taken" .u8 { w := some 4, h := some 5 } .intermediate).2
  have tensors : taken.Reachable :=
    (((((Reachable.empty "plane").addTensor _ _ _ (by decide)).addTensor _ _ _
      (by decide)).addTensor _ _ _ (by decide)).addTensor _ _ _ (by decide)).addTensor _ _ _
        (by decide)
  let first := taken.connect ⟨"heighten", none, [⟨0⟩], [⟨1⟩], .expand {}⟩
  let second := first.connect ⟨"heighten more", none, [⟨1⟩], [⟨2⟩], .expand {}⟩
  let third := second.connect
    ⟨"copy", none, [⟨1⟩], [⟨3⟩], .copy { input := Requirement.empty.set 0 .compact } none⟩
  have heightens : taken.addExpand "heighten" none [⟨0⟩] [⟨1⟩] {} = .ok (⟨0⟩, first) := by
    decide +kernel
  have heightensMore : first.addExpand "heighten more" none [⟨1⟩] [⟨2⟩] {} = .ok (⟨1⟩, second) := by
    decide +kernel
  have copies : second.addCopy "copy" none [⟨1⟩] [⟨3⟩]
      { input := Requirement.empty.set 0 .compact } = .ok (⟨2⟩, third) := by
    decide +kernel
  have takes : third.addCopy "take" none [⟨2⟩] [⟨4⟩]
      { input := Requirement.empty.set 1 (.fixed 8) } = .ok (⟨3⟩, stackedPlane) := by
    decide +kernel
  exact (((tensors.addExpand heightens).addExpand heightensMore).addCopy copies).addCopy takes

/-- The first stage hears of the stride between the rows through the second one. -/
theorem strideQuery_stackedPlane :
    ∃ input output, stackedPlane.strideDemands ⟨0⟩ =
        .ok ((TensorMap.empty.insert ⟨0⟩ input).insert ⟨1⟩ output) ∧
      output.get 1 = .fixed 8 ∧ input.get 1 = .fixed 8 := by
  let site : Site := ⟨⟨0⟩, stackedPlane.stages[0], ⟨0⟩, stackedPlane.tensors[0], ⟨1⟩,
    stackedPlane.tensors[1]⟩
  have hosts : stackedPlane.Hosts site := by decide +kernel
  have shaped := reachable_stackedPlane.wellFormed.shaped hosts.output
  have wide : IsLeast {position | site.WidensAt position} 1 :=
    (Site.innermostWidened?_eq_some_iff shaped).mp (by decide +kernel)
  obtain ⟨-, -, -, joining, -⟩ := reachable_stackedPlane.strideQuery_exact hosts rfl
  have answers (id : StageId) (asked : (stackedPlane.strideDemands id).toOption.isSome) :
      ∃ reply, stackedPlane.strideDemands id = .ok reply := by
    cases outcome : stackedPlane.strideDemands id with
    | ok reply => exact ⟨reply, rfl⟩
    | error error => simp [outcome, Except.toOption] at asked
  obtain ⟨fails, joins⟩ := joining 1 wide (by
    intro reader member
    have among : reader = ⟨1⟩ ∨ reader = ⟨2⟩ := by simpa [site, stackedPlane] using member
    rcases among with rfl | rfl
    · exact answers ⟨1⟩ (by decide +kernel)
    · exact answers ⟨2⟩ (by decide +kernel))
  obtain ⟨reply, answered⟩ := answers ⟨0⟩ (by decide +kernel)
  obtain ⟨input, output, asks, view, -⟩ := joins fun clash => by
    obtain ⟨error, failed, -⟩ := fails.mpr clash
    exact absurd (answered.symm.trans failed) (by simp)
  have found : ((stackedPlane.strideDemands ⟨0⟩).toOption.bind (·.get? ⟨1⟩)).map (·.get 1) =
      some (.fixed 8) := by
    decide +kernel
  have apart : output.get 1 = .fixed 8 := by
    rw [asks] at found
    simpa [Except.toOption, TensorMap.get?_insert, site] using found
  exact ⟨input, output, asks, apart, (view 1 le_rfl).2.trans apart⟩

end Graph

end TensorLowering
