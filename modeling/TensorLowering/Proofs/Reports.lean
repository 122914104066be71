import TensorLowering.Proofs.Compilation
import TensorLowering.Proofs.Propagation

/-!
A pass counts what it writes. The count is nothing exactly if the pass leaves every decision as it
was, except where it writes a scale that it takes back later in the same run.
-/

namespace TensorLowering

open Attempt TensorLowering.Graph

namespace Graph

variable {g : Graph}

theorem Idle.modifyTensor (idle : g.Idle) (id : TensorId) {change : Tensor → Tensor}
    (same : ∀ tensor, (change tensor).role = tensor.role ∧
      (change tensor).producer = tensor.producer ∧ (change tensor).scale = tensor.scale) :
    (g.modifyTensor id change).Idle := by
  intro other tensor atOther role unwritten
  rw [tensors_modifyTensor] at atOther
  split at atOther
  · obtain ⟨before, atBefore, rfl⟩ := Option.map_eq_some_iff.mp atOther
    obtain ⟨role', producer, scale⟩ := same before
    rw [role'] at role
    rw [producer] at unwritten
    exact scale.trans (idle other before atBefore role unwritten)
  · exact idle other tensor atOther role unwritten

theorem Idle.insertStage (idle : g.Idle) {stage : Stage} {id : StageId} {after : Graph}
    (inserted : g.insertStage stage = .ok (id, after)) : after.Idle := by
  obtain ⟨-, -, rfl⟩ := insertStage_eq_ok_iff.mp inserted
  intro other tensor atOther role unwritten
  rw [tensors_connect] at atOther
  obtain ⟨before, atBefore, rfl⟩ := Option.map_eq_some_iff.mp atOther
  refine idle other before atBefore role ?_
  simp only at unwritten
  split at unwritten
  · cases unwritten
  · exact unwritten

theorem keeps_idle_of_mem {settings : Settings} {pass : Pass Workspace}
    (member : pass ∈ Pass.all settings) :
    Attempt.Keeps (fun w : Workspace => w.graph.WellFormed ∧ w.graph.Idle) pass.run := by
  refine @Pass.keeps_of_mem (fun g => g.WellFormed ∧ g.Idle) settings ?_ (wellFormed_order.and ?_)
    (wellFormed_negotiate.and ?_) (wellFormed_batch.and ?_) (wellFormed_finalize.and ?_) pass member
  · intro g before
    have scaled := (Scale.propagate_ensures before.1.wired settings.inputScales).and
      (wellFormed_scale settings.inputScales g before.1)
    exact scaled.mono (fun _ _ reached => ⟨reached.2, reached.1.idle before.2⟩)
      fun _ _ refused => ⟨refused.2, refused.1.2.idle before.2⟩
  · exact AxisOrder.propagate_keeps
      fun _ site idle _ _ => idle.modifyTensor site.outputId fun _ => ⟨rfl, rfl, rfl⟩
  · exact Negotiation.negotiate_keeps
      fun _ id _ _ _ idle _ _ _ => idle.modifyTensor id fun _ => ⟨rfl, rfl, rfl⟩
  · exact Batching.determine_keeps fun _ id _ idle => idle.modifyTensor id fun _ => ⟨rfl, rfl, rfl⟩
  · exact Layout.finalize_keeps
      (fun _ id _ _ idle _ _ => idle.modifyTensor id fun _ => ⟨rfl, rfl, rfl⟩)
      fun _ _ _ idle => idle

/-- No pass rescales what is neither given nor written. -/
theorem Reachable.idle (reachable : g.Reachable) : g.Idle := by
  induction reachable with
  | empty name => simp [Idle, Graph.empty]
  | addTensor name type extents _ _ ih =>
    intro id tensor atId role unwritten
    simp only [Graph.addTensor, Array.getElem?_push] at atId
    split at atId
    · cases atId
      rfl
    · exact ih id tensor atId role unwritten
  | markOutput _ marked ih =>
    obtain ⟨given, atGiven, other, rfl⟩ := markOutput_eq_ok_iff.mp marked
    intro id tensor atId role unwritten
    rw [tensors_modifyTensor] at atId
    split at atId
    · rename_i here
      rw [here, atGiven] at atId
      cases atId
      exact ih _ given atGiven other unwritten
    · exact ih id tensor atId role unwritten
  | setInputOrder _ _ chosen ih =>
    obtain ⟨_, -, -, -, rfl⟩ := setInputOrder_eq_ok_iff.mp chosen
    exact ih.modifyTensor _ fun _ => ⟨rfl, rfl, rfl⟩
  | addCopy _ inserted ih => exact ih.insertStage inserted
  | addPower _ inserted ih => exact ih.insertStage inserted
  | addExpand _ inserted ih => exact ih.insertStage inserted
  | addDetached _ _ _ inserted ih => exact ih.insertStage inserted
  | @pass w settings pass reachable member ih =>
    exact (keeps_iff_state.mp (keeps_idle_of_mem member) w ⟨reachable.wellFormed, ih⟩).2

end Graph

/-! ### Orders -/

namespace AxisOrder

variable {g : Graph}

/-- The tensor that a stage writes, if it writes one. -/
def written? (g : Graph) (id : StageId) : Option TensorId :=
  (g.stages[id.index]?).bind (·.outputs.head?)

theorem written?_of_undecided_eq {h : Graph} (same : h.undecided = g.undecided) {site : Site}
    (hosts : h.Hosts site) : written? g site.id = some site.outputId := by
  obtain ⟨stage, atStage, -, outputs, -⟩ := stage_of_undecided_eq same hosts.stage
  simp [written?, atStage, outputs, hosts.outputs]

/-- Each stage hands an order on to a tensor of its own, so nothing is counted exactly if every
order was there before. -/
theorem propagate_counts (wired : g.Wired) :
    propagate.Ensures g
      (fun count after => after.undecided = g.undecided ∧ (count = 0 ↔ after.tensors = g.tensors))
      fun _ _ => True := by
  obtain ⟨order, scheduled, ordered⟩ := wired.exists_schedule
  have apart : (order.map (written? g)).Nodup := by
    refine List.pairwise_map.mpr (ordered.nodup.imp_of_mem fun member member' differ same => ?_)
    obtain ⟨site, hosts, rfl⟩ := wired.site_of_mem ((ordered.mem_iff _).mp member)
    obtain ⟨site', hosts', rfl⟩ := wired.site_of_mem ((ordered.mem_iff _).mp member')
    rw [written?_of_undecided_eq rfl hosts, written?_of_undecided_eq rfl hosts',
      Option.some.injEq] at same
    exact differ (hosts.id_eq_of_outputId_eq hosts' wired same)
  refine .ask_bind scheduled ?_
  refine (Ensures.sweep_apart (fun now key => key.bind now.lookup) (written? g) (fun _ _ => True)
    (fun now => now.undecided = g.undecided) apart rfl ?_).mono ?_ fun _ _ => id
  · intro id member now same
    have member' := ((ordered.of_undecided_eq same).mem_iff id).mp member
    obtain ⟨site, hosts, rfl⟩ := (wired.of_undecided_eq same).site_of_mem member'
    rw [written?_of_undecided_eq same hosts]
    refine (propagateThrough_ensures hosts).mono ?_ fun _ _ _ => trivial
    intro here after handed
    rcases handed with ⟨-, rfl, rfl⟩ | ⟨-, differs, rfl, rfl⟩
    · exact ⟨same, fun _ _ => rfl, trivial, by simp⟩
    · refine ⟨(undecided_modifyTensor fun _ => ?_).trans same, fun key elsewhere => ?_, trivial, ?_⟩
      · rfl
      · cases key with
        | none => rfl
        | some other => exact lookup_modifyTensor_of_ne fun here => elsewhere (congrArg some here)
      · simp only [Option.bind_some, lookup, tensors_modifyTensor, if_true, hosts.output,
          Option.map_some, Option.some.injEq, Nat.one_ne_zero, false_iff]
        exact fun unchanged => differs (congrArg Tensor.order unchanged).symm
  · intro count after reached
    obtain ⟨same, -, counted⟩ := reached
    refine ⟨same, counted.trans ⟨fun unchanged => ?_, fun tensors => ?_⟩⟩
    · exact lookup_eq_iff.mp (funext fun id => congrFun unchanged (some id))
    · funext key
      rw [lookup_eq_iff.mpr tensors]

end AxisOrder

/-! ### Requirements -/

namespace Negotiation

variable {g : Graph}

/-- Requirements have grown, and the count tells whether they have. -/
structure Grows (g : Graph) (count : Nat) (after : Graph) (r : TensorId → Requirement) : Prop where
  graph : after = g.require r
  asked : (g.require r).requirement = r
  grown : g.requirement ≤ r
  counted : count = 0 ↔ r = g.requirement

theorem Grows.commit {count : Nat} {round : Round} {r : TensorId → Requirement}
    (grows : Grows g count round.graph r) (stage : String) (id : TensorId) (demand : Requirement) :
    (commit stage id demand).Ensures round
      (fun here after => ∃ r', Grows g (count + here) after.graph r')
      fun _ after => ∃ count r', Grows g count after.graph r' := by
  cases atId : g.tensors[id.index]? with
  | none =>
    have missing : round.graph.tensor id = .error (.contract (.unknownTensor id)) := by
      simp only [tensor, grows.graph, tensors_require, atId]
      rfl
    exact .ask_fail missing ⟨count, r, grows⟩
  | some tensor =>
    refine (commit_spec grows.graph atId stage demand).mono ?_ ?_
    · rintro here after ⟨merged, changed, -, joined, rfl, counted⟩
      have above : r ≤ Function.update r id merged :=
        le_update_iff.mpr ⟨(Requirement.merge_ok joined).1.1.1, fun _ _ => le_rfl⟩
      have known : id.index < g.tensors.size := (Array.getElem?_eq_some_iff.mp atId).1
      refine ⟨Function.update r id merged, ?_, ?_, grows.grown.trans above, ?_⟩
      · simp only [Round.fill, grows.graph, modifyTensor_require]
      · refine le_antisymm (requirement_require_le _ _) fun other => ?_
        by_cases here : other = id
        · rw [here, requirement_require_of_lt known]
        · have kept : (g.require r).requirement other ≤
              (g.require (Function.update r id merged)).requirement other := by
            rw [← modifyTensor_require]
            simp [requirement, tensors_modifyTensor, here]
          rwa [grows.asked, ← Function.update_of_ne here merged r] at kept
      · rw [Nat.add_eq_zero_iff, grows.counted,
          counted.trans (Function.update_eq_self_iff (f := r)).symm]
        exact stays_iff grows.grown above
    · rintro error after ⟨rfl, -⟩
      exact ⟨count, r, grows⟩

theorem negotiate_grows :
    negotiate.Ensures g (fun count after => ∃ r, Grows g count after r)
      fun _ after => ∃ count r, Grows g count after r := by
  have start : Grows g 0 g g.requirement :=
    ⟨(require_requirement g).symm, by rw [require_requirement], le_rfl, by simp⟩
  have consult {count : Nat} {round : Round} {r : TensorId → Requirement}
      (grows : Grows g count round.graph r) (id : StageId) :
      (consult id).Ensures round (fun here after => ∃ r', Grows g (count + here) after.graph r')
        fun _ after => ∃ count r', Grows g count after.graph r' := by
    simp only [Negotiation.consult, ensures_bind, ensures_ask]
    refine ⟨fun answer _ => ⟨fun stage _ => ?_, fun _ _ => ⟨count, r, grows⟩⟩,
      fun _ _ => ⟨count, r, grows⟩⟩
    refine Ensures.sweep (fun _ here (after : Round) => ∃ r', Grows g (count + here) after.graph r')
      ⟨r, grows⟩ fun _ entry _ here now _ reached => ?_
    obtain ⟨r', grows'⟩ := reached
    simpa only [Nat.add_assoc] using grows'.commit stage.name entry.1 entry.2
  rw [ensures_negotiate]
  simp only [runRound, ensures_bind, ensures_ask]
  refine ⟨fun order _ => ?_, fun _ _ => ⟨0, _, start⟩⟩
  refine Ensures.sweep (fun _ count (after : Round) => ∃ r, Grows g count after.graph r) ⟨_, start⟩
    fun _ id _ count now _ reached => ?_
  obtain ⟨r, grows⟩ := reached
  exact consult grows id

theorem Grows.counts {count : Nat} {after : Graph} {r : TensorId → Requirement}
    (grows : Grows g count after r) : count = 0 ↔ after.tensors = g.tensors := by
  rw [grows.counted]
  constructor
  · intro same
    rw [grows.graph, same, require_requirement]
  · intro tensors
    rw [grows.graph] at tensors
    exact grows.asked.symm.trans (funext fun id => by simp only [requirement, tensors])

end Negotiation

/-! ### Scales -/

namespace Scale

open Ieee

variable {g : Graph} {inputScales : TensorMap Float32}

/-- A configured scale is entered and taken back in one run: the only reader of the network input
takes unscaled values only. -/
def TakesBack (g : Graph) (inputScales : TensorMap Float32) : Prop :=
  ∃ id ∈ g.tensorsWith .input, (g.soleNonlinearReader? id).isSome ∧
    givenScale inputScales id != 1.0

theorem mem_tensorsWith {role : Role} {id : TensorId} :
    id ∈ g.tensorsWith role ↔ ∃ tensor, g.tensors[id.index]? = some tensor ∧ tensor.role = role := by
  simp only [tensorsWith, List.mem_filter, mem_tensorIds]
  constructor
  · intro both
    obtain ⟨known, holds⟩ := both
    exact ⟨_, Array.getElem?_eq_getElem known, by simpa [known] using holds⟩
  · intro found
    obtain ⟨tensor, atId, holds⟩ := found
    exact ⟨(Array.getElem?_eq_some_iff.mp atId).1, by simp [atId, holds]⟩

theorem rescale_tensors_eq_iff {s : TensorId → Float32} :
    (g.rescale s).tensors = g.tensors ↔
      ∀ (id : TensorId) (tensor : Tensor), g.tensors[id.index]? = some tensor → s id = g.scale id := by
  rw [← lookup_eq_iff]
  constructor
  · intro same id tensor atId
    have here := congrFun same id
    simp only [lookup, tensors_rescale, atId, Option.map_some, Option.some.injEq] at here
    simpa [scale, atId] using congrArg Tensor.scale here
  · intro same
    funext id
    rw [lookup, lookup, tensors_rescale]
    cases atId : g.tensors[id.index]? with
    | none => rfl
    | some tensor =>
      have here := same id tensor atId
      rw [scale, atId] at here
      simp [here]

/-- A run that counts nothing leaves every scale as it was, and takes none back. -/
theorem Carries.unchanged {s : TensorId → Float32} (carries : Carries g inputScales g.stageIds s)
    (starts : ∀ id ∈ g.tensorsWith .input, g.scale id == givenScale inputScales id)
    (uncounted : Uncounted g inputScales g.stageIds s) :
    (∀ (id : TensorId) (tensor : Tensor), g.tensors[id.index]? = some tensor → s id = g.scale id) ∧
      ¬TakesBack g inputScales := by
  have begin (id : TensorId) (input : id ∈ g.tensorsWith .input) :
      startScale g inputScales id = g.scale id := if_pos (starts id input)
  have unscaled {id : TensorId} {reader : StageId} (input : id ∈ g.tensorsWith .input)
      (sole : g.soleNonlinearReader? id = some reader) : startScale g inputScales id == 1.0 := by
    obtain ⟨tensor, atId, role⟩ := mem_tensorsWith.mp input
    obtain ⟨site, hosts, rfl, rfl, -⟩ := site_of_sole carries.wired sole
    rw [hosts.input] at atId
    cases atId
    by_contra scaled
    exact (uncounted site hosts hosts.mem_stageIds).2 ⟨role, sole, scaled⟩
  refine ⟨fun id tensor atId => ?_, fun takesBack => ?_⟩
  · by_cases role : tensor.role = .input
    · have input := mem_tensorsWith.mpr ⟨tensor, atId, role⟩
      cases sole : g.soleNonlinearReader? id with
      | none => rw [carries.waiting atId role (by simp [sole]), begin id input]
      | some reader =>
        obtain ⟨site, hosts, rfl, -⟩ := site_of_sole carries.wired sole
        rw [carries.served atId role sole hosts.mem_stageIds, ← begin id input]
        exact (eq_one_of_beq (unscaled input sole)).symm
    · by_cases written : ∃ site, g.Hosts site ∧ site.outputId = id
      · obtain ⟨site, hosts, rfl⟩ := written
        rw [carries.written hosts hosts.mem_stageIds]
        exact if_pos (uncounted site hosts hosts.mem_stageIds).1
      · push Not at written
        exact carries.untouched atId role fun site hosts _ => written site hosts
  · obtain ⟨id, input, found, scaled⟩ := takesBack
    obtain ⟨reader, sole⟩ := Option.isSome_iff_exists.mp found
    have given := BEq.trans (BEq.symm (carries.beq_start id)) (unscaled input sole)
    simp [bne, given] at scaled

/-- A run that leaves every scale as it was counts nothing, unless it takes a scale back. -/
theorem Carries.uncounted {s : TensorId → Float32} (carries : Carries g inputScales g.stageIds s)
    (same : ∀ (id : TensorId) (tensor : Tensor), g.tensors[id.index]? = some tensor →
      s id = g.scale id) (kept : ¬TakesBack g inputScales) :
    (∀ id ∈ g.tensorsWith .input, g.scale id == givenScale inputScales id) ∧
      Uncounted g inputScales g.stageIds s := by
  have given {id : TensorId} {reader : StageId} (input : id ∈ g.tensorsWith .input)
      (sole : g.soleNonlinearReader? id = some reader) : givenScale inputScales id == 1.0 := by
    by_contra scaled
    exact kept ⟨id, input, by simp [sole], by simpa [bne] using scaled⟩
  refine ⟨fun id input => ?_, fun site hosts member => ⟨?_, fun changed => ?_⟩⟩
  · obtain ⟨tensor, atId, role⟩ := mem_tensorsWith.mp input
    rw [← same id tensor atId]
    cases sole : g.soleNonlinearReader? id with
    | none =>
      rw [carries.waiting atId role (by simp [sole])]
      exact carries.beq_start id
    | some reader =>
      obtain ⟨-, stage, atReader, -⟩ := soleNonlinearReader?_eq_some_iff.mp sole
      have member := mem_stageIds.mpr (Array.getElem?_eq_some_iff.mp atReader).1
      rw [carries.served atId role sole member]
      exact BEq.symm (given input sole)
  · have written := same site.outputId site.output hosts.output
    rw [carries.written hosts member] at written
    exact (keepEqual_eq_left_iff (beq_self_of_beq (BEq.symm (carries.taken hosts member)))).mp written
  · obtain ⟨role, sole, scaled⟩ := changed
    have input := mem_tensorsWith.mpr ⟨site.input, hosts.input, role⟩
    exact scaled (BEq.trans (carries.beq_start site.inputId) (given input sole))

theorem propagate_counts (wired : g.Wired) (idle : g.Idle)
    (numbers : ∀ id, givenScale inputScales id == givenScale inputScales id) :
    (propagate inputScales).Ensures g
      (fun count after => after.undecided = g.undecided ∧
        (count = 0 ↔ after.tensors = g.tensors ∧ ¬TakesBack g inputScales))
      fun _ _ => True := by
  refine (propagate_exact wired idle numbers).mono ?_ fun _ _ _ => trivial
  intro count after found
  obtain ⟨s, rfl, carries, counted⟩ := found
  refine ⟨undecided_rescale g s, ?_⟩
  rw [counted, rescale_tensors_eq_iff]
  exact ⟨fun both => carries.unchanged both.1 both.2, fun both => carries.uncounted both.1 both.2⟩

end Scale

/-! ### All passes -/

namespace Pipeline

variable {σ : Type} {state after : σ} {pass : Pass σ} {report : PassReport}

theorem countRound_pass (ran : pass.run state = .ok report after) :
    countRound (run [.pass pass]) state =
      .ok { report with rounds := report.rounds + 1 } after := by
  simp only [countRound, run, runStep, bind, EStateM.bind, ran]
  simp [pure, EStateM.pure, PassReport.merge]

/-- A pass that reports no change has converged. -/
theorem fixedPoint_of_unchanged (ran : pass.run state = .ok report after)
    (unchanged : report.changed = false) (maxRounds : Nat) :
    runStep (.fixedPoint maxRounds [.pass pass]) state =
      .ok { report with rounds := report.rounds + 1 } after := by
  rw [runStep]
  cases maxRounds - 1 <;>
    simp [repeatRounds, bind, EStateM.bind, countRound_pass ran, unchanged, pure, EStateM.pure]

/-- A pass that reports a change where it makes none does not converge, however often it runs. -/
theorem fixedPoint_of_stuck (ran : pass.run state = .ok report state)
    (changed : report.changed = true) (maxRounds : Nat) :
    ∃ rounds, runStep (.fixedPoint maxRounds [.pass pass]) state =
      .error (.negotiation (.notConverged [pass.name] rounds)) state := by
  rw [runStep]
  have stuck (finished more : Nat) : ∃ rounds,
      repeatRounds (passNames [.pass pass]) (run [.pass pass]) finished more state =
        .error (.negotiation (.notConverged [pass.name] rounds)) state := by
    induction more generalizing finished with
    | zero =>
      refine ⟨finished + 1, ?_⟩
      simp only [repeatRounds, bind, EStateM.bind, countRound_pass ran, changed, if_true]
      rfl
    | succ more ih =>
      obtain ⟨rounds, failed⟩ := ih (finished + 1)
      exact ⟨rounds, by
        simp [repeatRounds, bind, EStateM.bind, countRound_pass ran, changed, failed]⟩
  exact stuck 0 (maxRounds - 1)

end Pipeline

namespace Pass

variable {w after : Workspace} {report : PassReport}

/-- A pass that counts nothing exactly if it leaves the tensors alone and something else holds. -/
theorem updating_changed_iff {name : String} {work : Attempt Graph Nat} {kept : Prop}
    (counts : work.Ensures w.graph (fun count after => after.undecided = w.graph.undecided ∧
      (count = 0 ↔ after.tensors = w.graph.tensors ∧ kept)) fun _ _ => True)
    (ran : (updating name work).run w = .ok report after) :
    report.changed = true ↔ after.graph.decisions ≠ w.graph.decisions ∨ ¬kept := by
  have ensured : (updating name work).run.Ensures w (fun report after =>
      report.changed = true ↔ after.graph.decisions ≠ w.graph.decisions ∨ ¬kept)
        fun _ _ => True := by
    rw [ensures_updating]
    refine counts.mono ?_ fun _ _ => id
    intro count graph reached
    obtain ⟨same, counted⟩ := reached
    rw [ne_eq, decisions_eq_iff same, ← not_and_or, ← counted]
    simp [PassReport.ofUpdates, Nat.pos_iff_ne_zero]
  exact ensured.of_ok ran

theorem checking_unchanged {name : String} {check : Graph → Except LoweringError Unit}
    (ran : (checking name check).run w = .ok report after) :
    report.changed = false ∧ after.graph = w.graph := by
  have ensured : (checking name check).run.Ensures w
      (fun report after => report.changed = false ∧ after.graph = w.graph) fun _ _ => True :=
    ensures_checking.mpr ⟨fun _ => ⟨rfl, rfl⟩, fun _ _ => trivial⟩
  exact ensured.of_ok ran

theorem serialize_unchanged (ran : serialize.run w = .ok report after) :
    report.changed = false ∧ after.graph = w.graph := by
  have ensured : serialize.run.Ensures w
      (fun report after => report.changed = false ∧ after.graph = w.graph) fun _ _ => True :=
    ensures_serialize.mpr ⟨fun _ _ _ => ⟨rfl, rfl⟩, fun _ _ => trivial⟩
  exact ensured.of_ok ran

/-- A pass that counts nothing exactly if it leaves the tensors alone. -/
theorem updating_changed_iff_differs {name : String} {work : Attempt Graph Nat}
    (counts : work.Ensures w.graph (fun count after => after.undecided = w.graph.undecided ∧
      (count = 0 ↔ after.tensors = w.graph.tensors)) fun _ _ => True)
    (ran : (updating name work).run w = .ok report after) :
    report.changed = true ↔ after.graph.decisions ≠ w.graph.decisions := by
  have counts' : work.Ensures w.graph (fun count after => after.undecided = w.graph.undecided ∧
      (count = 0 ↔ after.tensors = w.graph.tensors ∧ True)) fun _ _ => True := by
    simpa only [and_true] using counts
  simpa only [not_true_eq_false, or_false] using updating_changed_iff counts' ran

/-- A pass reports a change exactly if some decision differs after it, or it entered a configured
scale and took it back. -/
theorem reports_of_mem {settings : Settings} {pass : Pass Workspace}
    (reachable : w.graph.Reachable)
    (numbers : ∀ id scale, settings.inputScales.get? id = some scale → scale.isNaN = false)
    (member : pass ∈ all settings) (ran : pass.run w = .ok report after) :
    report.changed = true ↔ after.graph.decisions ≠ w.graph.decisions ∨
      pass.name = "propagate-scale-factors" ∧ Scale.TakesBack w.graph settings.inputScales := by
  have wired := reachable.wellFormed.wired
  have still (unchanged : report.changed = false ∧ after.graph = w.graph)
      (other : pass.name ≠ "propagate-scale-factors") :
      report.changed = true ↔ after.graph.decisions ≠ w.graph.decisions ∨
        pass.name = "propagate-scale-factors" ∧ Scale.TakesBack w.graph settings.inputScales := by
    simp [unchanged.1, unchanged.2, other]
  have plain (differs : report.changed = true ↔ after.graph.decisions ≠ w.graph.decisions)
      (other : pass.name ≠ "propagate-scale-factors") :
      report.changed = true ↔ after.graph.decisions ≠ w.graph.decisions ∨
        pass.name = "propagate-scale-factors" ∧ Scale.TakesBack w.graph settings.inputScales := by
    simp [differs, other]
  simp only [all, List.mem_cons, List.not_mem_nil, or_false] at member
  rcases member with rfl | rfl | rfl | rfl | rfl | rfl | rfl | rfl
  · exact still (checking_unchanged ran) (by decide)
  · simpa [propagateScaleFactors, updating] using updating_changed_iff
      (Scale.propagate_counts wired reachable.idle (givenScale_beq_self numbers)) ran
  · exact plain (updating_changed_iff_differs (AxisOrder.propagate_counts wired) ran) (by decide)
  · refine plain (updating_changed_iff_differs (Negotiation.negotiate_grows.mono ?_
      fun _ _ _ => trivial) ran) (by decide)
    rintro count graph ⟨r, grows⟩
    exact ⟨grows.graph ▸ undecided_require w.graph r, grows.counts⟩
  · refine plain (updating_changed_iff_differs ((Batching.determine_ensures wired).mono ?_
      fun _ _ _ => trivial) ran) (by decide)
    exact fun _ _ reached => ⟨undecided_eq_of_planned_eq reached.1, reached.2.2⟩
  · refine plain (updating_changed_iff_differs ((Layout.finalize_ensures wired).mono ?_
      fun _ _ _ => trivial) ran) (by decide)
    exact fun _ _ reached => ⟨undecided_eq_of_planned_eq reached.1, reached.2.2.2⟩
  · exact still (checking_unchanged ran) (by decide)
  · exact still (serialize_unchanged ran) (by decide)

/-- A pass reports a change exactly if some decision differs after it, or it entered a configured
scale and took it back. Otherwise a pass that leaves every decision as it was has converged. -/
theorem changed_iff {settings : Settings} {pass : Pass Workspace} (reachable : w.graph.Reachable)
    (numbers : ∀ id scale, settings.inputScales.get? id = some scale → scale.isNaN = false)
    (member : pass ∈ all settings) (ran : pass.run w = .ok report after) :
    (report.changed = true ↔ after.graph.decisions ≠ w.graph.decisions ∨
      pass.name = "propagate-scale-factors" ∧ Scale.TakesBack w.graph settings.inputScales) ∧
    (after.graph.decisions = w.graph.decisions →
      ¬(pass.name = "propagate-scale-factors" ∧ Scale.TakesBack w.graph settings.inputScales) →
        ∀ maxRounds, ∃ stable, stable.changed = false ∧
          Pipeline.runStep (.fixedPoint maxRounds [.pass pass]) w = .ok stable after) := by
  have truthful := reports_of_mem reachable numbers member ran
  refine ⟨truthful, fun same kept maxRounds => ?_⟩
  have unchanged : report.changed = false := by
    rw [← Bool.not_eq_true, truthful]
    exact fun found => found.elim (fun differs => differs same) kept
  exact ⟨{ report with rounds := report.rounds + 1 }, unchanged,
    Pipeline.fixedPoint_of_unchanged ran unchanged maxRounds⟩

theorem changed_iff_spreadRow :
    ∃ report after, negotiateStrides.run (.ofGraph spreadRow) = .ok report after ∧
      report.changed = true ∧ after.graph.decisions ≠ spreadRow.decisions := by
  have spread : negotiateStrides.run (.ofGraph spreadRow) = .ok (.ofUpdates 1)
      (.ofGraph (spreadRow.modifyTensor ⟨1⟩ fun tensor =>
        { tensor with requirement := Requirement.empty.set 0 (.fixed 8) })) := by
    with_unfolding_all rfl
  have reachable : (Workspace.ofGraph spreadRow).graph.Reachable := reachable_widenedRow _
  obtain ⟨truthful, -⟩ := @changed_iff _ _ _ {} negotiateStrides reachable (by simp)
    (by simp [all]) spread
  refine ⟨_, _, spread, rfl, (truthful.mp rfl).resolve_right fun other => ?_⟩
  exact absurd other.1 (by decide)

end Pass

namespace Graph

/-- A row that a nonlinear kernel squares. -/
def squaredRow : Graph where
  name := "row"
  tensors := #[
    { Tensor.fresh "given" .fp16 { w := some 4 } .input with consumers := [⟨0⟩] },
    { Tensor.fresh "squared" .fp16 { w := some 4 } .intermediate with producer := some ⟨0⟩ }]
  stages := #[⟨"square", none, [⟨0⟩], [⟨1⟩], .power ⟨1.0, 0.0, 2.0⟩⟩]

theorem reachable_squaredRow : squaredRow.Reachable := by
  let given := ((empty "row").addTensor "given" .fp16 { w := some 4 } .input).2
  let squared := (given.addTensor "squared" .fp16 { w := some 4 } .intermediate).2
  have tensors : squared.Reachable :=
    ((Reachable.empty "row").addTensor _ _ _ (by decide)).addTensor _ _ _ (by decide)
  have squares : squared.addPower "square" none [⟨0⟩] [⟨1⟩] ⟨1.0, 0.0, 2.0⟩ =
      .ok (⟨0⟩, squaredRow) := by
    with_unfolding_all rfl
  exact tensors.addPower squares

/-- A scale of two is entered for the row and taken back: every run counts two changes, leaves the
row as it was, and no number of rounds converges. -/
theorem not_converges_squaredRow :
    ∃ settings report, squaredRow.Reachable ∧
      (∀ id scale, settings.inputScales.get? id = some scale → scale.isNaN = false) ∧
      (Pass.propagateScaleFactors settings).run (.ofGraph squaredRow) =
        .ok report (.ofGraph squaredRow) ∧ report.changed = true ∧
      ∀ maxRounds, ∃ rounds, Pipeline.runStep
        (.fixedPoint maxRounds [.pass (.propagateScaleFactors settings)]) (.ofGraph squaredRow) =
          .error (.negotiation (.notConverged ["propagate-scale-factors"] rounds))
            (.ofGraph squaredRow) := by
  let settings : Settings := { inputScales := TensorMap.empty.insert ⟨0⟩ 2.0 }
  have outcome : (Pass.propagateScaleFactors settings).run.result? (.ofGraph squaredRow) =
      some (.ofUpdates 2, .ofGraph squaredRow) := by
    decide +kernel
  have ran := result?_eq_some_iff.mp outcome
  refine ⟨settings, .ofUpdates 2, reachable_squaredRow, fun id scale given => ?_, ran, rfl,
    Pipeline.fixedPoint_of_stuck ran rfl⟩
  simp only [settings, TensorMap.get?_insert, TensorMap.get?_empty] at given
  split at given
  · cases given
    decide +kernel
  · cases given

end Graph

end TensorLowering
