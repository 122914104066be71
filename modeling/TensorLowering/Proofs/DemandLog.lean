import TensorLowering.Proofs.Compilation
import TensorLowering.Proofs.Runs

/-!
A round of negotiation as a log of the demands that it commits. Each of them is merged whole with
what was asked before; the first one that is refused ends the round and leaves no trace. What a round
notes beside the graph says for every slot which entry of the log filled it.
-/

namespace TensorLowering

open Attempt TensorLowering.Graph

namespace Negotiation

variable {g : Graph}

/-- What a stage asks of one of its tensors. -/
structure Demand where
  stage : StageId
  tensor : TensorId
  slots : Requirement

def Demand.ofEntry (stage : StageId) (entry : TensorId × Requirement) : Demand :=
  ⟨stage, entry.1, entry.2⟩

/-- What a stage answers, in the order of the tensors. -/
def Demand.ofAnswer (stage : StageId) (answer : TensorMap Requirement) : List Demand :=
  answer.toList.map (.ofEntry stage)

/-- The demands of the log have been merged with what was asked at the start, one after the other and
none of them in part. -/
inductive Entered (start : TensorId → Requirement) : List Demand → (TensorId → Requirement) → Prop
  | none : Entered start [] start
  | more {log : List Demand} {r : TensorId → Requirement} {demand : Demand} {merged : Requirement}
      {changed : Bool} : Entered start log r →
      (r demand.tensor).merge demand.slots = (merged, .ok changed) →
      Entered start (log ++ [demand]) (Function.update r demand.tensor merged)

/-- The stages have been asked one after the other, each when the demands of those before it had been
entered, and the log is what they answered. -/
inductive Heard (g : Graph) : List StageId → List Demand → Prop
  | none : Heard g [] []
  | more {visited : List StageId} {log : List Demand} {r : TensorId → Requirement} {id : StageId}
      {answer : TensorMap Requirement} : Heard g visited log → Entered g.requirement log r →
      (g.require r).strideDemands id = .ok answer →
      Heard g (visited ++ [id]) (log ++ Demand.ofAnswer id answer)

/-- In a round the stage comes right after the visited ones. -/
def Turn (g : Graph) (visited : List StageId) (id : StageId) : Prop :=
  ∃ order rest, g.schedule = .ok order ∧ order.reverse = visited ++ id :: rest

/-- In a round the demand comes right after those of the log. The visited stages have been asked
before the one that it is from. -/
inductive Arrives (g : Graph) : List StageId → List Demand → Demand → Prop
  | intro {visited : List StageId} {log before later : List Demand} {r : TensorId → Requirement}
      {answer : TensorMap Requirement} {demand : Demand} : Turn g visited demand.stage →
      Heard g visited log → Entered g.requirement log r →
      (g.require r).strideDemands demand.stage = .ok answer →
      Demand.ofAnswer demand.stage answer = before ++ demand :: later →
      Arrives g visited (log ++ before) demand

/-- An entry of the log, the one of a stage with this name, filled the slot, which was free before. -/
inductive FilledBy (g : Graph) (log : List Demand) (id : TensorId) (position : Nat) (slot : Slot)
    (name : String) : Prop
  | intro {first second : List Demand} {filler : Demand} {stage : Stage}
      {r : TensorId → Requirement} : log = first ++ filler :: second → filler.tensor = id →
      filler.slots.get position = slot → g.stages[filler.stage.index]? = some stage →
      stage.name = name → Entered g.requirement first r → (r id).get position = .any →
      FilledBy g log id position slot name

/-- Where a slot comes from: it was there before the round, or an entry of the log filled it. -/
def Traced (g : Graph) (log : List Demand) (r : TensorId → Requirement) (id : TensorId)
    (position : Nat) : Option String → Prop
  | none => (g.requirement id).get position = (r id).get position
  | some name => (g.requirement id).get position = .any ∧
      FilledBy g log id position ((r id).get position) name

/-- Why a round ends early, and with which demands entered: a stage has no answer, or the demand that
is next is refused. -/
inductive Stops (g : Graph) (log : List Demand) (r : TensorId → Requirement) : LoweringError → Prop
  | unanswered {visited : List StageId} {site : Site} {fault : StageFault} : Turn g visited site.id →
      Heard g visited log → g.Hosts site →
      (g.require r).strideDemands site.id = .error (site.stage.fault fault) →
      Stops g log r (site.stage.fault fault)
  | refused {visited : List StageId} {demand : Demand} {stage : Stage} {tensor : Tensor}
      {filler : Nat → Option String} {error : LoweringError} : Arrives g visited log demand →
      g.stages[demand.stage.index]? = some stage →
      g.tensors[demand.tensor.index]? = some tensor →
      Refuses tensor (r demand.tensor) demand.slots stage.name filler error →
      (∀ position, Traced g log r demand.tensor position (filler position)) →
      Stops g log r error

/-- A round has come to the requirements that its log makes out of those it began with, and has noted
where each slot comes from. -/
structure Follows (g : Graph) (log : List Demand) (r : TensorId → Requirement) (round : Round) :
    Prop where
  graph : round.graph = g.require r
  entered : Entered g.requirement log r
  traced : ∀ id position, Traced g log r id position (round.filledBy.lookup (id, position))

namespace Entered

variable {start r r' : TensorId → Requirement} {log more : List Demand}

theorem grown (entered : Entered start log r) : start ≤ r := by
  induction entered with
  | none => exact le_rfl
  | more _ joined ih =>
    exact ih.trans (le_update_iff.mpr ⟨(Requirement.merge_ok joined).1.1.1, fun _ _ => le_rfl⟩)

/-- The demands are met by the requirements they lead to, and those are the least to do so. -/
theorem isLeast (entered : Entered start log r) :
    IsLeast {upper | start ≤ upper ∧ ∀ demand ∈ log, demand.slots ≤ upper demand.tensor} r := by
  induction entered with
  | none => exact ⟨⟨le_rfl, by simp⟩, fun _ reached => reached.1⟩
  | @more log r demand merged changed _ joined ih =>
    have step := isLeast_update (Requirement.merge_ok joined).1
    have bounds : {upper | start ≤ upper ∧ ∀ entry ∈ log ++ [demand],
        entry.slots ≤ upper entry.tensor} = {upper | r ≤ upper ∧ demand.slots ≤ upper demand.tensor} := by
      ext upper
      simp only [Set.mem_ofPred_eq, le_iff_of_isLeast ih fun above met entry member =>
        (met entry member).trans (above entry.tensor), List.forall_mem_append, List.forall_mem_singleton,
        and_assoc]
    exact bounds ▸ step

/-- The demands that were added to a log raise what the log led to as little as possible. -/
theorem isLeast_of_append (entered : Entered start log r) (entered' : Entered start (log ++ more) r') :
    IsLeast {upper | r ≤ upper ∧ ∀ demand ∈ more, demand.slots ≤ upper demand.tensor} r' := by
  have bounds : {upper | start ≤ upper ∧ ∀ demand ∈ log ++ more, demand.slots ≤ upper demand.tensor} =
      {upper | r ≤ upper ∧ ∀ demand ∈ more, demand.slots ≤ upper demand.tensor} := by
    ext upper
    simp only [Set.mem_ofPred_eq, le_iff_of_isLeast entered.isLeast fun above met entry member =>
      (met entry member).trans (above entry.tensor), List.forall_mem_append, and_assoc]
  exact bounds ▸ entered'.isLeast

/-- Position by position a slot is what was asked at the start or by one of the demands. -/
theorem isGreatest_get (entered : Entered start log r) (id : TensorId) (position : Nat) :
    IsGreatest {slot | slot = (start id).get position ∨
      ∃ demand ∈ log, demand.tensor = id ∧ slot = demand.slots.get position} ((r id).get position) := by
  obtain ⟨grown, met⟩ := entered.isLeast.1
  refine Requirement.isGreatest_get (fun position slot =>
    ∃ demand ∈ log, demand.tensor = id ∧ slot = demand.slots.get position) ⟨⟨grown id, ?_⟩, ?_⟩ position
  · rintro place slot ⟨demand, member, rfl, rfl⟩
    exact met demand member place
  · rintro upper ⟨above, meets⟩
    have bound : r ≤ Function.update r id upper := entered.isLeast.2
      ⟨le_update_iff.mpr ⟨above, fun other _ => grown other⟩, fun demand member => ?_⟩
    · simpa using bound id
    · by_cases here : demand.tensor = id
      · rw [here, Function.update_self]
        exact fun place => meets place _ ⟨demand, member, here, rfl⟩
      · rw [Function.update_of_ne here]
        exact met demand member

end Entered

/-! ### One demand -/

/-- A demand is noted at the positions that were free before. -/
theorem Round.lookup_fill (round : Round) (stage : String) (id : TensorId)
    (before demand merged : Requirement) (other : TensorId) (position : Nat) :
    (round.fill stage id before demand merged).filledBy.lookup (other, position) =
      if other = id ∧ before.get position = .any ∧ demand.get position ≠ .any then some stage
      else round.filledBy.lookup (other, position) := by
  have noted (key : TensorId × Nat) (name : String) :
      (key, name) ∈ (demand.concrete.filter fun entry => !(before.get entry.1).isConcrete).map
          (fun entry => ((id, entry.1), stage)) ↔
        name = stage ∧ key.1 = id ∧ before.get key.2 = .any ∧ demand.get key.2 ≠ .any := by
    simp only [List.mem_map, List.mem_filter, Bool.not_eq_true', ← Bool.not_eq_true,
      Slot.isConcrete_iff, not_not, Prod.exists, Prod.mk.injEq]
    constructor
    · rintro ⟨place, slot, ⟨member, free⟩, rfl, rfl⟩
      obtain ⟨rfl, asks⟩ := Requirement.mem_concrete.mp member
      exact ⟨rfl, rfl, free, asks⟩
    · rintro ⟨rfl, rfl, free, asks⟩
      exact ⟨key.2, _, ⟨Requirement.mem_concrete.mpr ⟨rfl, asks⟩, free⟩, rfl, rfl⟩
  rw [fill, List.lookup_append]
  split
  · rename_i fills
    have listed := (noted (other, position) stage).mpr ⟨rfl, fills⟩
    obtain ⟨name, found⟩ := Option.isSome_iff_exists.mp
      (List.lookup_isSome_iff.mpr ⟨_, listed, beq_self_eq_true (other, position)⟩)
    obtain ⟨before, after, split, -⟩ := List.lookup_eq_some_iff.mp found
    obtain ⟨rfl, -⟩ := (noted (other, position) name).mp (by simp [split])
    rw [found, Option.some_or]
  · rename_i kept
    rw [List.lookup_eq_none_iff.mpr, Option.none_or]
    rintro ⟨key, name⟩ member
    rw [bne_iff_ne]
    rintro rfl
    exact kept ((noted _ name).mp member).2

theorem Traced.mono {log more : List Demand} {r r' : TensorId → Requirement} {id : TensorId}
    {position : Nat} {source : Option String} (traced : Traced g log r id position source)
    (same : (r' id).get position = (r id).get position) :
    Traced g (log ++ more) r' id position source := by
  cases source with
  | none => exact traced.trans same.symm
  | some name =>
    obtain ⟨free, @⟨first, second, filler, stage, r₀, split, tensor, slot, atStage, named, entered,
      empty⟩⟩ := traced
    have split' : log ++ more = first ++ filler :: (second ++ more) := by simp [split]
    exact ⟨free, .intro split' tensor (slot.trans same.symm) atStage named entered empty⟩

/-- A demand that is committed is one more entry of the log. -/
theorem Follows.fill {log : List Demand} {r : TensorId → Requirement} {round : Round}
    (follows : Follows g log r round) {demand : Demand} {stage : Stage}
    (atStage : g.stages[demand.stage.index]? = some stage) {merged : Requirement} {changed : Bool}
    (joined : (r demand.tensor).merge demand.slots = (merged, .ok changed)) :
    Follows g (log ++ [demand]) (Function.update r demand.tensor merged)
      (round.fill stage.name demand.tensor (r demand.tensor) demand.slots merged) where
  graph := by simp only [Round.fill, follows.graph, modifyTensor_require]
  entered := follows.entered.more joined
  traced id position := by
    rw [Round.lookup_fill]
    have joins := Requirement.isGreatest_merge joined position
    split
    · rename_i fills
      obtain ⟨rfl, free, asks⟩ := fills
      have below := follows.entered.grown demand.tensor position
      rw [free, Slot.le_any_iff] at below
      have taken : merged.get position = demand.slots.get position :=
        Slot.eq_of_le (joins.2 (.inr rfl)) asks
      refine ⟨below, .intro rfl rfl ?_ atStage rfl follows.entered free⟩
      rw [Function.update_self, taken]
    · rename_i kept
      -- Nothing is noted, as the slot was taken before or the demand leaves it free.
      refine (follows.traced id position).mono ?_
      by_cases here : id = demand.tensor
      · subst here
        rw [Function.update_self]
        by_cases free : (r demand.tensor).get position = .any
        · have silent : demand.slots.get position = .any := by
            by_contra asks
            exact kept ⟨rfl, free, asks⟩
          rcases joins.1 with same | same
          · exact same
          · exact same.trans (silent.trans free.symm)
        · exact Slot.eq_of_le (joins.2 (.inl rfl)) free
      · rw [Function.update_of_ne here]

/-- Committing a demand enters it in the log, or refuses it and leaves the round as it was. -/
theorem Follows.commit {log : List Demand} {r : TensorId → Requirement} {round : Round}
    (follows : Follows g log r round) (demand : Demand) {stage : Stage} {tensor : Tensor}
    (atStage : g.stages[demand.stage.index]? = some stage)
    (atTensor : g.tensors[demand.tensor.index]? = some tensor) :
    (commit stage.name demand.tensor demand.slots).Ensures round
      (fun _ after => ∃ r', Follows g (log ++ [demand]) r' after)
      fun error after => after = round ∧ ∃ filler,
        Refuses tensor (r demand.tensor) demand.slots stage.name filler error ∧
          ∀ position, Traced g log r demand.tensor position (filler position) := by
  refine (commit_spec follows.graph atTensor stage.name demand.slots).mono ?_ ?_
  · rintro count after ⟨merged, changed, -, joined, rfl, -⟩
    exact ⟨_, follows.fill atStage joined⟩
  · rintro error after ⟨rfl, refused⟩
    exact ⟨rfl, _, refused, follows.traced demand.tensor⟩

/-! ### A round -/

/-- A round has asked the visited stages, and they are served. -/
structure Progress (g : Graph) (visited : List StageId) (log : List Demand)
    (r : TensorId → Requirement) (round : Round) : Prop extends Follows g log r round where
  heard : Heard g visited log
  served : g.Served r visited

theorem Progress.consult (base : g.WellFormed) {order : List StageId}
    (scheduled : g.schedule = .ok order) {visited rest : List StageId} {site : Site}
    (hosts : g.Hosts site) (split : order.reverse = visited ++ site.id :: rest) {log : List Demand}
    {r : TensorId → Requirement} {round : Round} (progress : Progress g visited log r round) :
    (consult site.id).Ensures round
      (fun _ after => ∃ log' r', Progress g (visited ++ [site.id]) log' r' after)
      fun error after => ∃ log' r', Follows g log' r' after ∧ Stops g log' r' error := by
  have ordered := base.wired.ordered_of_schedule scheduled
  have apart := hosts.inputId_ne_outputId base.wired
  have turn : Turn g visited site.id := ⟨order, rest, scheduled, split⟩
  have answered := strideDemands_eq base ordered hosts split progress.served
  have asked := answered
  rw [← progress.graph] at asked
  have stage : round.graph.stage site.id = .ok site.stage := by
    rw [progress.graph]
    exact stage_eq_ok_iff.mpr hosts.stage
  cases asks : site.demands? r with
  | none =>
    rw [asks] at asked answered
    exact .ask_fail asked ⟨log, r, progress.toFollows,
      .unanswered turn progress.heard hosts answered⟩
  | some demands =>
    rw [asks] at asked answered
    refine .ask_bind asked (.ask_bind stage ?_)
    have known : ∀ entry ∈ ((TensorMap.empty.insert site.inputId demands.1).insert
        site.outputId demands.2).toList, ∃ tensor, g.tensors[entry.1.index]? = some tensor :=
      (TensorMap.forall_mem_answer apart).mpr ⟨⟨_, hosts.input⟩, _, hosts.output⟩
    refine (Ensures.sweep (fun before _ now => ∃ r',
      Follows g (log ++ before.map (.ofEntry site.id)) r' now) ?_ ?_).mono ?_ fun _ _ => id
    · exact ⟨r, by simpa using progress.toFollows⟩
    · rintro before entry rest count now split' ⟨r', follows⟩
      obtain ⟨tensor, atTensor⟩ := known entry (by simp [split'])
      refine (follows.commit (.ofEntry site.id entry) hosts.stage atTensor).mono ?_ ?_
      · rintro here after ⟨r'', follows'⟩
        exact ⟨r'', by simpa using follows'⟩
      · rintro error after ⟨rfl, filler, refused, traced⟩
        have next : Demand.ofAnswer site.id ((TensorMap.empty.insert site.inputId demands.1).insert
            site.outputId demands.2) =
              before.map (.ofEntry site.id) ++ .ofEntry site.id entry :: rest.map (.ofEntry site.id) := by
          simp [Demand.ofAnswer, split']
        have arrives : Arrives g visited (log ++ before.map (.ofEntry site.id))
            (.ofEntry site.id entry) :=
          .intro turn progress.heard progress.entered answered next
        exact ⟨_, r', follows, .refused arrives hosts.stage atTensor refused traced⟩
    · rintro count after ⟨r', follows⟩
      refine ⟨_, r', follows, progress.heard.more progress.entered answered, ?_⟩
      refine served_raise base ordered hosts split progress.served asks ?_
      have raised := progress.entered.isLeast_of_append follows.entered
      simp only [List.forall_mem_map] at raised
      exact raised

/-- A round either asks all stages, or stops at a stage without an answer or at a refused demand. -/
theorem runRound_follows (base : g.WellFormed) :
    runRound.Ensures ⟨g, []⟩
      (fun _ after => ∃ order log r, g.schedule = .ok order ∧
        Progress g order.reverse log r after)
      fun error after => ∃ log r, Follows g log r after ∧ Stops g log r error := by
  obtain ⟨order, scheduled, ordered⟩ := base.wired.exists_schedule
  refine .ask_bind scheduled ?_
  refine (Ensures.sweep (fun visited _ now => ∃ log r, Progress g visited log r now) ?_ ?_).mono ?_
    fun _ _ => id
  · exact ⟨[], g.requirement, ⟨(require_requirement g).symm, .none, fun _ _ => rfl⟩, .none,
      by simp [Served]⟩
  · rintro visited id rest count now split ⟨log, r, progress⟩
    have member : id ∈ g.stageIds := (ordered.mem_iff id).mp (List.mem_reverse.mp (by simp [split]))
    obtain ⟨site, hosts, rfl⟩ := base.wired.site_of_mem member
    exact progress.consult base scheduled hosts split
  · rintro count after ⟨log, r, progress⟩
    exact ⟨order, log, r, scheduled, progress⟩

theorem negotiate_follows (base : g.WellFormed) :
    negotiate.Ensures g
      (fun _ after => ∃ log r, after = g.require r ∧ Entered g.requirement log r)
      fun error after => ∃ log r, after = g.require r ∧ Entered g.requirement log r ∧
        Stops g log r error := by
  refine ensures_negotiate.mpr ((runRound_follows base).mono ?_ ?_)
  · rintro count after ⟨order, log, r, -, progress⟩
    exact ⟨log, r, progress.graph, progress.entered⟩
  · rintro error after ⟨log, r, follows, stops⟩
    exact ⟨log, r, follows.graph, follows.entered, stops⟩

/-! ### Who filled a slot -/

theorem Heard.stage_mem {visited : List StageId} {log : List Demand} (heard : Heard g visited log)
    {demand : Demand} (member : demand ∈ log) : demand.stage ∈ visited := by
  induction heard with
  | none => cases member
  | @more visited log r id answer _ _ _ ih =>
    rcases List.mem_append.mp member with old | new
    · exact List.mem_append_left _ (ih old)
    · obtain ⟨entry, -, rfl⟩ := List.mem_map.mp new
      exact List.mem_append_right _ (List.mem_singleton_self _)

/-- A stage asks a tensor once, so what was asked of the tensor before is from other stages. -/
theorem Arrives.stage_mem {visited : List StageId} {segment : List Demand} {demand earlier : Demand}
    (arrives : Arrives g visited segment demand) (member : earlier ∈ segment)
    (same : earlier.tensor = demand.tensor) : earlier.stage ∈ visited := by
  obtain ⟨-, heard, -, -, split⟩ := arrives
  rename_i answer
  rcases List.mem_append.mp member with old | here
  · exact heard.stage_mem old
  · have sorted : (Demand.ofAnswer demand.stage answer).Pairwise
        (·.tensor.index < ·.tensor.index) := List.pairwise_map.mpr answer.sorted
    rw [split, List.pairwise_append] at sorted
    have less := sorted.2.2 earlier here demand (List.mem_cons_self ..)
    exact absurd less (by simp [same])

/-- A conflict is between a demand that is next and what its tensor was asked when it arrived. -/
theorem Stops.conflict {log : List Demand} {r : TensorId → Requirement} {name stageName : String}
    {axis : Axis} {existing demanded : Slot} {source : Option String}
    (stops : Stops g log r
      (.negotiation (.conflict name axis existing demanded source stageName))) :
    ∃ visited demand stage tensor position, Arrives g visited log demand ∧
      g.stages[demand.stage.index]? = some stage ∧ stage.name = stageName ∧
      g.tensors[demand.tensor.index]? = some tensor ∧ tensor.name = name ∧
      tensor.order.axisAt? position = some axis ∧ demand.slots.get position = demanded ∧
      (r demand.tensor).get position = existing ∧ existing ≠ .any ∧ demanded ≠ .any ∧
      existing ≠ demanded ∧ Traced g log r demand.tensor position source := by
  generalize report : LoweringError.negotiation
    (.conflict name axis existing demanded source stageName) = error at stops
  cases stops with
  | unanswered => cases report
  | refused arrives atStage atTensor refuses traced =>
    cases refuses with
    | beyondRank => cases report
    | conflict atPosition asked asks differ =>
      cases report
      exact ⟨_, _, _, _, _, arrives, atStage, rfl, atTensor, rfl, atPosition, rfl, rfl, asked, asks,
        differ, traced _⟩

end Negotiation

open Negotiation

theorem Pass.negotiateStrides_follows {w : Workspace} (formed : w.graph.WellFormed) :
    negotiateStrides.run.Ensures w
      (fun _ after => ∃ log r, after = { w with graph := w.graph.require r } ∧
        Entered w.graph.requirement log r)
      fun error after => ∃ log r, after = { w with graph := w.graph.require r } ∧
        Entered w.graph.requirement log r ∧ Stops w.graph log r error := by
  rw [negotiateStrides, ensures_updating]
  refine (negotiate_follows formed).mono ?_ ?_
  · rintro _ after ⟨log, r, rfl, entered⟩
    exact ⟨log, r, rfl, entered⟩
  · rintro error after ⟨log, r, rfl, entered, stops⟩
    exact ⟨log, r, rfl, entered, stops⟩

/-- A round of negotiation changes requirements and nothing else, and keeps every slot that asks for
something, as does any run of operations. If it fails, the demands up to the first that is refused,
or up to the first stage without an answer, have been merged whole with what was asked before, and
nothing of the refused one has. -/
theorem Pass.negotiateStrides_commits {w : Workspace} (reachable : w.graph.Reachable) :
    (∃ r, Attempt.state negotiateStrides.run w = { w with graph := w.graph.require r } ∧
      ∀ id position, (w.graph.requirement id).get position ≠ .any →
        (r id).get position = (w.graph.requirement id).get position) ∧
    (∀ {h : Graph}, Relation.ReflTransGen Becomes w.graph h → ∀ id position,
      (w.graph.requirement id).get position ≠ .any →
        (h.requirement id).get position = (w.graph.requirement id).get position) ∧
    ∀ {error : LoweringError} {after : Workspace}, negotiateStrides.run w = .error error after →
      ∃ segment r, after = { w with graph := w.graph.require r } ∧
        Entered w.graph.requirement segment r ∧
        (∀ id position, IsGreatest {slot | slot = (w.graph.requirement id).get position ∨
          ∃ demand ∈ segment, demand.tensor = id ∧ slot = demand.slots.get position}
            ((r id).get position)) ∧
        Stops w.graph segment r error ∧
        ∀ visited demand, Arrives w.graph visited segment demand → ∀ position,
          (r demand.tensor).get position = .any →
            (after.graph.requirement demand.tensor).get position = .any := by
  have ran := negotiateStrides_follows reachable.wellFormed
  refine ⟨?_, fun run id position asks => ?_, fun {error after} failed => ?_⟩
  · have grown : negotiateStrides.run.Ensures w
        (fun _ after => ∃ log r, after = { w with graph := w.graph.require r } ∧
          Entered w.graph.requirement log r)
        fun _ after => ∃ log r, after = { w with graph := w.graph.require r } ∧
          Entered w.graph.requirement log r :=
      ran.mono (fun _ _ => id) fun _ _ ⟨log, r, same, entered, _⟩ => ⟨log, r, same, entered⟩
    obtain ⟨log, r, same, entered⟩ := ensures_iff_state.mp grown
    exact ⟨r, same, fun id position asks => Slot.eq_of_le (entered.grown id position) asks⟩
  · exact Slot.eq_of_le (requirement_le_of_run run id position) asks
  · obtain ⟨segment, r, rfl, entered, stops⟩ := ran.of_error failed
    refine ⟨segment, r, rfl, entered, entered.isGreatest_get, stops, ?_⟩
    intro visited demand _ position free
    exact Slot.le_any_iff.mp (free ▸ requirement_require_le _ _ demand.tensor position)

/-- If a round of negotiation reports a conflict, then a demand of the stage that is named arrived at a
tensor of that name and asked at the position of the axis for the one slot where it found the other.
No source is named exactly if that slot was there before the round; otherwise it was filled by a
demand of an earlier stage of that name. -/
theorem Pass.negotiateStrides_conflict {w after : Workspace} (reachable : w.graph.Reachable)
    {name stageName : String} {axis : Axis} {existing demanded : Slot} {source : Option String}
    (failed : negotiateStrides.run w = .error
      (.negotiation (.conflict name axis existing demanded source stageName)) after) :
    ∃ visited segment demand r stage tensor position,
      Arrives w.graph visited segment demand ∧ Entered w.graph.requirement segment r ∧
      w.graph.stages[demand.stage.index]? = some stage ∧ stage.name = stageName ∧
      w.graph.tensors[demand.tensor.index]? = some tensor ∧ tensor.name = name ∧
      tensor.order.axisAt? position = some axis ∧ demand.slots.get position = demanded ∧
      (r demand.tensor).get position = existing ∧ existing ≠ .any ∧ demanded ≠ .any ∧
      existing ≠ demanded ∧ (source = none ↔ tensor.requirement.get position ≠ .any) ∧
      ∀ fillerName, source = some fillerName → ∃ first filler second stage' r',
        segment = first ++ filler :: second ∧ filler.stage ∈ visited ∧
        w.graph.stages[filler.stage.index]? = some stage' ∧ stage'.name = fillerName ∧
        filler.tensor = demand.tensor ∧ Entered w.graph.requirement first r' ∧
        (r' demand.tensor).get position = .any ∧ filler.slots.get position = existing := by
  obtain ⟨segment, r, -, entered, stops⟩ :=
    (negotiateStrides_follows reachable.wellFormed).of_error failed
  obtain ⟨visited, demand, stage, tensor, position, arrives, atStage, named, atTensor, named',
    atPosition, demands, found, asked, asks, differ, traced⟩ := stops.conflict
  have before := requirement_of_getElem? atTensor
  refine ⟨visited, segment, demand, r, stage, tensor, position, arrives, entered, atStage, named,
    atTensor, named', atPosition, demands, found, asked, asks, differ, ?_, ?_⟩
  · rw [← before]
    cases source with
    | none => exact iff_of_true rfl (traced.trans found ▸ asked)
    | some filler => exact iff_of_false (by simp) (not_not.mpr traced.1)
  · rintro fillerName rfl
    obtain ⟨-, @⟨first, second, filler, stage', r', split, tensor', slot, atFiller, named'', entered',
      free⟩⟩ := traced
    have member : filler ∈ segment := by simp [split]
    exact ⟨first, filler, second, stage', r', split, arrives.stage_mem member tensor', atFiller,
      named'', tensor', entered', free, slot.trans found⟩

namespace Graph

/-- A row that is spread eight bytes apart by the stage that writes it, and taken four bytes apart by
the one that reads it. -/
def contestedRow : Graph where
  name := "row"
  tensors := #[
    { Tensor.fresh "given" .u8 { w := some 4 } .input with consumers := [⟨0⟩] },
    { Tensor.fresh "copied" .u8 { w := some 4 } .intermediate with
      producer := some ⟨0⟩, consumers := [⟨1⟩] },
    { Tensor.fresh "taken" .u8 { w := some 4 } .intermediate with producer := some ⟨1⟩ }]
  stages := #[
    ⟨"spread", none, [⟨0⟩], [⟨1⟩], .copy { output := Requirement.empty.set 0 (.fixed 8) } none⟩,
    ⟨"take", none, [⟨1⟩], [⟨2⟩], .copy { input := Requirement.empty.set 0 (.fixed 4) } none⟩]

theorem reachable_contestedRow : contestedRow.Reachable := by
  let given := ((empty "row").addTensor "given" .u8 { w := some 4 } .input).2
  let copied := (given.addTensor "copied" .u8 { w := some 4 } .intermediate).2
  let taken := (copied.addTensor "taken" .u8 { w := some 4 } .intermediate).2
  have tensors : taken.Reachable :=
    (((Reachable.empty "row").addTensor _ _ _ (by decide)).addTensor _ _ _ (by decide)).addTensor
      _ _ _ (by decide)
  let spread := taken.connect
    ⟨"spread", none, [⟨0⟩], [⟨1⟩], .copy { output := Requirement.empty.set 0 (.fixed 8) } none⟩
  have spreads : taken.addCopy "spread" none [⟨0⟩] [⟨1⟩]
      { output := Requirement.empty.set 0 (.fixed 8) } = .ok (⟨0⟩, spread) := by
    decide +kernel
  have takes : spread.addCopy "take" none [⟨1⟩] [⟨2⟩]
      { input := Requirement.empty.set 0 (.fixed 4) } = .ok (⟨1⟩, contestedRow) := by
    decide +kernel
  exact (tensors.addCopy spreads).addCopy takes

end Graph

theorem Pass.negotiateStrides_commits_contestedRow :
    ∃ error after segment r, negotiateStrides.run (.ofGraph contestedRow) = .error error after ∧
      after.graph = contestedRow.require r ∧ Entered contestedRow.requirement segment r ∧
      (r ⟨1⟩).get 0 = .fixed 4 := by
  let asking : Workspace := .ofGraph contestedRow
  have reachable : asking.graph.Reachable := reachable_contestedRow
  have failed : result? negotiateStrides.run asking = none := by decide +kernel
  have found : (Attempt.state negotiateStrides.run asking).graph.tensors[1]?.map
      (·.requirement.get 0) = some (.fixed 4) := by
    decide +kernel
  cases outcome : negotiateStrides.run asking with
  | ok report after => simp [result?, outcome] at failed
  | error error after =>
    obtain ⟨-, -, fails⟩ := negotiateStrides_commits reachable
    obtain ⟨segment, r, same, entered, -⟩ := fails outcome
    have graph : after.graph = contestedRow.require r := congrArg Workspace.graph same
    refine ⟨error, after, segment, r, rfl, graph, entered, ?_⟩
    simp only [Attempt.state, outcome, graph] at found
    simpa [require, contestedRow] using found

theorem Pass.negotiateStrides_conflict_contestedRow :
    ∃ after, negotiateStrides.run (.ofGraph contestedRow) = .error (.negotiation
        (.conflict "copied" .w (.fixed 4) (.fixed 8) (some "take") "spread")) after ∧
      ∃ (filler : Demand) (stage : Stage) (position : Nat),
        contestedRow.stages[filler.stage.index]? = some stage ∧ stage.name = "take" ∧
        filler.slots.get position = .fixed 4 := by
  have reachable : (Workspace.ofGraph contestedRow).graph.Reachable := reachable_contestedRow
  have failed : negotiateStrides.run (.ofGraph contestedRow) = .error (.negotiation
      (.conflict "copied" .w (.fixed 4) (.fixed 8) (some "take") "spread"))
        (Attempt.state negotiateStrides.run (.ofGraph contestedRow)) := by
    with_unfolding_all rfl
  obtain ⟨_, _, _, _, _, _, position, -, -, -, -, -, -, -, -, -, -, -, -, -, source⟩ :=
    negotiateStrides_conflict reachable failed
  obtain ⟨_, filler, _, stage, _, -, -, atFiller, named, -, -, -, slot⟩ := source "take" rfl
  exact ⟨_, failed, filler, stage, position, atFiller, named, slot⟩

end TensorLowering
