import TensorLowering.Proofs.Fitting
import TensorLowering.Proofs.Negotiation

namespace TensorLowering

open Attempt

namespace Pipeline

section rules

variable {σ : Type} {state : σ} {done : PassReport → σ → Prop} {failed : LoweringError → σ → Prop}

@[simp] theorem ensures_run_nil : (run []).Ensures state done failed ↔ done {} state := by
  simp [run]

@[simp] theorem ensures_run_cons {step : Step σ} {rest : List (Step σ)} :
    (run (step :: rest)).Ensures state done failed ↔
      (runStep step).Ensures state (fun here now =>
        (run rest).Ensures now (fun later => done (here.merge later)) failed) failed := by
  simp only [run, ensures_bind, ensures_pure]

@[simp] theorem ensures_runStep_pass {pass : Pass σ} :
    (runStep (.pass pass)).Ensures state done failed ↔ pass.run.Ensures state done failed := by
  simp [runStep]

end rules

/-- The steps that follow the negotiation. -/
def closing : List (Step Workspace) :=
  [.pass .batchSupport, .pass .finalizeLayout, .pass .finalCheck, .pass .serialize]

/-- The steps that follow the scales. -/
def decisions (maxRounds : Nat) : List (Step Workspace) :=
  .pass .propagateDataOrder :: .fixedPoint maxRounds [.pass .negotiateStrides] :: closing

theorem standard_eq (settings : Settings) :
    standard settings = .pass .validateStructure ::
      ((if settings.propagateScales then [.pass (.propagateScaleFactors settings)] else []) ++
        decisions settings.maxRounds) := rfl

end Pipeline

namespace Pass

variable {w : Workspace} {done : PassReport → Workspace → Prop}
  {failed : LoweringError → Workspace → Prop}

@[simp] theorem ensures_updating {name : String} {work : Attempt Graph Nat} :
    (updating name work).run.Ensures w done failed ↔
      work.Ensures w.graph (fun updated g => done (.ofUpdates updated) { w with graph := g })
        fun error g => failed error { w with graph := g } := by
  simp only [updating, ensures_bind, ensures_within, ensures_pure]

theorem updating_eq_ok {name : String} {work : Attempt Graph Nat} {updated : Nat} {after : Graph}
    (worked : work w.graph = .ok updated after) :
    (updating name work).run w = .ok (.ofUpdates updated) { w with graph := after } := by
  simp only [updating, bind, EStateM.bind, Attempt.within, worked]
  rfl

@[simp] theorem ensures_checking {name : String} {check : Graph → Except LoweringError Unit} :
    (checking name check).run.Ensures w done failed ↔
      (check w.graph = .ok () → done {} w) ∧
        ∀ error, check w.graph = .error error → failed error w := by
  simp only [checking, ensures_bind, ensures_ask, ensures_pure]
  exact and_congr_left fun _ => ⟨fun all => all (), fun one _ => one⟩

@[simp] theorem ensures_serialize :
    serialize.run.Ensures w done failed ↔
      (∀ image records, w.graph.image = .ok (image, records) →
        done {} { w with image := some image, records := records }) ∧
          ∀ error, w.graph.image = .error error → failed error w := by
  simp only [serialize, ensures_bind, ensures_ask, ensures_modify, ensures_pure, Prod.forall]

end Pass

theorem ensures_compile {settings : Settings} {g : Graph} {done : Compiled → Graph → Prop}
    {failed : LoweringError → Graph → Prop} :
    (compile settings).Ensures g done failed ↔
      (Pipeline.run (Pipeline.standard settings)).Ensures (.ofGraph g)
        (fun report w => done ⟨w.image.getD #[], report, w.records⟩ w.graph)
        fun error w => failed error w.graph := by
  unfold Ensures compile
  cases Pipeline.run (Pipeline.standard settings) (Workspace.ofGraph g) <;> rfl

theorem Pipeline.ensures_decisions {maxRounds : Nat} {w : Workspace}
    {done : PassReport → Workspace → Prop} {failed : LoweringError → Workspace → Prop} :
    (run (decisions maxRounds)).Ensures w done failed ↔
      AxisOrder.propagate.Ensures w.graph
        (fun count ordered =>
          (runStep (.fixedPoint maxRounds [.pass .negotiateStrides])).Ensures
            { w with graph := ordered }
            (fun settled after => (run closing).Ensures after
              (fun closed => done ((PassReport.ofUpdates count).merge (settled.merge closed)))
              failed)
            failed)
        fun error ordered => failed error { w with graph := ordered } := by
  simp only [decisions, ensures_run_cons, ensures_runStep_pass, Pass.propagateDataOrder,
    Pass.ensures_updating]

/-- Lowering checks the structure, carries the scales through if it is to, and decides. -/
theorem ensures_compile_of {settings : Settings} {g : Graph} {done : Compiled → Graph → Prop}
    {failed : LoweringError → Graph → Prop}
    (invalid : ∀ error, g.validate = .error error → failed error g)
    (unscaled : g.validate = .ok () → settings.propagateScales = false →
      (Pipeline.run (Pipeline.decisions settings.maxRounds)).Ensures (.ofGraph g)
        (fun report w =>
          done ⟨w.image.getD #[], PassReport.merge {} report, w.records⟩ w.graph)
        fun error w => failed error w.graph)
    (scaled : g.validate = .ok () → settings.propagateScales = true →
      (Scale.propagate settings.inputScales).Ensures g
        (fun count h => (Pipeline.run (Pipeline.decisions settings.maxRounds)).Ensures (.ofGraph h)
          (fun report w => done ⟨w.image.getD #[],
            PassReport.merge {} ((PassReport.ofUpdates count).merge report), w.records⟩ w.graph)
          fun error w => failed error w.graph)
        failed) :
    (compile settings).Ensures g done failed := by
  simp only [ensures_compile, Pipeline.standard_eq, Pipeline.ensures_run_cons,
    Pipeline.ensures_runStep_pass, Pass.validateStructure, Pass.ensures_checking]
  refine ⟨fun valid => ?_, invalid⟩
  cases scales : settings.propagateScales with
  | false => exact unscaled valid scales
  | true =>
    simp only [if_true, List.cons_append, List.nil_append, Pipeline.ensures_run_cons,
      Pipeline.ensures_runStep_pass, Pass.propagateScaleFactors, Pass.ensures_updating]
    exact scaled valid scales

namespace Negotiation

open Pipeline TensorLowering.Graph

theorem Refusal.foreseen {error : LoweringError} (refusal : Refusal error) (maxRounds : Nat) :
    Foreseen maxRounds error := by
  cases refusal with
  | @notWider site narrow =>
    unfold Site.Widens at narrow
    cases operation : site.stage.operation with
    | expand offset =>
      have kind : site.stage.kind = .expand := by rw [Stage.kind, operation, Operation.kind]
      simp only [operation, ne_eq, not_exists, not_and, not_not] at narrow
      rw [Stage.fault, kind]
      exact .notWider narrow
    | _ => simp [operation] at narrow
  | beyondRank past => exact .beyondRank past
  | conflict => exact .conflict

theorem countRound_ensures {w : Workspace} (formed : w.graph.WellFormed)
    (aligned : w.graph.Aligned) :
    (countRound (run [.pass .negotiateStrides])).Ensures w
      (fun report after => ∃ r, after = { w with graph := w.graph.require r } ∧
        after.graph.WellFormed ∧ IsLeast {r | w.graph.Solves r} r ∧ w.graph.Answerable ∧
        report.rounds = 1 ∧ (report.changed = false ↔ r = w.graph.requirement))
      fun error _ => Refusal error ∧ ¬(w.graph.Answerable ∧ ∃ r, w.graph.Solves r) := by
  simp only [countRound, ensures_bind, ensures_pure, ensures_run_cons, ensures_run_nil,
    ensures_runStep_pass, Pass.negotiateStrides, Pass.ensures_updating]
  refine (negotiate_ensures formed aligned).mono ?_ fun _ _ => id
  intro count after reached
  obtain ⟨r, rfl, formed', least, counted, answerable⟩ := reached
  refine ⟨r, rfl, formed', least, answerable, rfl, ?_⟩
  rw [← counted]
  simp [PassReport.ofUpdates, PassReport.merge]

/-- Where every stage is served the next round is the last one. -/
theorem repeatRounds_of_solves {w : Workspace} (formed : w.graph.WellFormed)
    (aligned : w.graph.Aligned) (answerable : w.graph.Answerable)
    (solves : w.graph.Solves w.graph.requirement) (names : List String) (finished more : Nat) :
    (repeatRounds names (run [.pass .negotiateStrides]) finished more).Ensures w
      (fun report after => report.rounds = 1 ∧ after = w) fun _ _ => False := by
  have counted : (countRound (run [.pass .negotiateStrides])).Ensures w
      (fun report after => report.rounds = 1 ∧ report.changed = false ∧ after = w)
        fun _ _ => False := by
    simp only [countRound, ensures_bind, ensures_pure, ensures_run_cons, ensures_run_nil,
      ensures_runStep_pass, Pass.negotiateStrides, Pass.ensures_updating]
    unfold Ensures
    rw [negotiate_of_solves formed aligned answerable solves]
    exact ⟨rfl, rfl, rfl⟩
  cases more with
  | zero =>
    simp only [repeatRounds, ensures_bind, ensures_ite, ensures_throw, ensures_pure]
    refine counted.mono ?_ fun _ _ => id
    intro report after reached
    obtain ⟨one, stays, same⟩ := reached
    simp [one, stays, same]
  | succ more =>
    simp only [repeatRounds, ensures_bind, ensures_ite, ensures_pure]
    refine counted.mono ?_ fun _ _ => id
    intro report after reached
    obtain ⟨one, stays, same⟩ := reached
    simp [one, stays, same]

/-- There are requirements to be found, and rounds enough to find the least ones. -/
def Solvable (g : Graph) (maxRounds : Nat) : Prop :=
  g.Answerable ∧ ∃ r, IsLeast {r | g.Solves r} r ∧ (2 ≤ maxRounds ∨ r = g.requirement)

/-- Negotiation takes one round if nothing is missing and two otherwise: the second one finds every
stage served. It fails only if there is nothing to find or one round is too few. -/
theorem rounds_ensures {w : Workspace} (formed : w.graph.WellFormed) (aligned : w.graph.Aligned)
    (maxRounds : Nat) :
    (runStep (.fixedPoint maxRounds [.pass .negotiateStrides])).Ensures w
      (fun report after => ∃ r, after = { w with graph := w.graph.require r } ∧
        after.graph.WellFormed ∧ IsLeast {r | w.graph.Solves r} r ∧ w.graph.Answerable ∧
        (report.rounds = 1 ∨ report.rounds = 2) ∧ (report.rounds = 1 ↔ r = w.graph.requirement) ∧
        (2 ≤ maxRounds ∨ r = w.graph.requirement))
      fun error _ => Foreseen maxRounds error ∧ ¬Solvable w.graph maxRounds := by
  have refuse {error : LoweringError} (refusal : Refusal error)
      (unsolved : ¬(w.graph.Answerable ∧ ∃ r, w.graph.Solves r)) :
      Foreseen maxRounds error ∧ ¬Solvable w.graph maxRounds :=
    ⟨refusal.foreseen maxRounds, fun ⟨answerable, r, least, _⟩ =>
      unsolved ⟨answerable, r, least.1⟩⟩
  rw [runStep]
  cases limit : maxRounds - 1 with
  | zero =>
    simp only [repeatRounds, ensures_bind, ensures_ite, ensures_throw, ensures_pure]
    refine (countRound_ensures formed aligned).mono ?_ fun _ _ refused => refuse refused.1 refused.2
    intro report after reached
    obtain ⟨r, same, formed', least, answerable, one, unchanged⟩ := reached
    refine ⟨fun changes => ⟨.notConverged (by omega), ?_⟩, fun stays => ?_⟩
    · rintro ⟨-, r', least', few | settled⟩
      · omega
      · obtain rfl := least.unique least'
        simp [unchanged.mpr settled] at changes
    · have settled := unchanged.mp (by simpa using stays)
      exact ⟨r, same, formed', least, answerable, .inl one, iff_of_true one settled, .inr settled⟩
  | succ more =>
    simp only [repeatRounds, ensures_bind, ensures_ite, ensures_pure]
    refine (countRound_ensures formed aligned).mono ?_ fun _ _ refused => refuse refused.1 refused.2
    intro report after reached
    obtain ⟨r, rfl, formed', least, answerable, one, unchanged⟩ := reached
    refine ⟨fun changes => ?_, fun stays => ?_⟩
    · have again := repeatRounds_of_solves formed' aligned.require answerable.require
        (solves_require least) (passNames [.pass .negotiateStrides]) 1 more
      have enough : 2 ≤ maxRounds := by omega
      refine again.mono ?_ fun _ _ => False.elim
      intro later after reached
      obtain ⟨one', rfl⟩ := reached
      have grew : r ≠ w.graph.requirement := fun same => by
        simp [unchanged.mpr same] at changes
      have two : (report.merge later).rounds = 2 := by simp [PassReport.merge, one, one']
      exact ⟨r, rfl, formed', least, answerable, .inr two, by simp [two, grew], .inl enough⟩
    · have settled := unchanged.mp (by simpa using stays)
      exact ⟨r, rfl, formed', least, answerable, .inl one, iff_of_true one settled, .inr settled⟩

end Negotiation

namespace Graph

/-- How a graph came out of its lowering: `ordered` is the graph before negotiation, which replaced
its requirements by `r`. -/
structure Lowered (g ordered : Graph) (r : TensorId → Requirement) (compiled : Compiled)
    (after : Graph) : Prop where
  formed : after.WellFormed
  built : after.undecided = g.undecided
  kept : ordered.requirement = g.requirement
  aligned : ordered.Aligned
  answerable : ordered.Answerable
  least : IsLeast {r | ordered.Solves r} r
  rounds : compiled.report.rounds = 1 ∨ compiled.report.rounds = 2
  settled : compiled.report.rounds = 1 ↔ r = ordered.requirement
  plan : after.planned = (ordered.require r).planned
  resolved : ∀ {id : TensorId} {tensor : Tensor}, after.tensors[id.index]? = some tensor →
    tensor.Resolved
  chosen : ∀ site, after.Hosts site → site.ModeChosen
  checked : after.checkFinal = .ok ()
  written : after.image = .ok (compiled.image, compiled.records)

variable {g : Graph}

/-- Passes without rounds that come first and keep the plan. -/
theorem Lowered.of_planned_eq {scaled ordered after : Graph} {r : TensorId → Requirement}
    {image : Array UInt8} {report report' : PassReport} {records : Nat}
    (lowered : Lowered scaled ordered r ⟨image, report, records⟩ after)
    (same : scaled.planned = g.planned) (rounds : report'.rounds = report.rounds) :
    Lowered g ordered r ⟨image, report', records⟩ after where
  formed := lowered.formed
  built := lowered.built.trans (undecided_eq_of_planned_eq same)
  kept := lowered.kept.trans (requirement_of_planned_eq same)
  aligned := lowered.aligned
  answerable := lowered.answerable
  least := lowered.least
  rounds := rounds ▸ lowered.rounds
  settled := rounds ▸ lowered.settled
  plan := lowered.plan
  resolved := lowered.resolved
  chosen := lowered.chosen
  checked := lowered.checked
  written := lowered.written

section

variable {ordered after : Graph} {r : TensorId → Requirement} {compiled : Compiled}

theorem Lowered.requirement_eq (lowered : Lowered g ordered r compiled after) :
    after.requirement = r := by
  rw [requirement_of_planned_eq lowered.plan, requirement_require lowered.least]

theorem Lowered.aligned_after (lowered : Lowered g ordered r compiled after) : after.Aligned :=
  lowered.aligned.require.of_planned_eq lowered.plan

/-- The lowered graph asks for enough. -/
theorem Lowered.solves (lowered : Lowered g ordered r compiled after) :
    after.Solves after.requirement := by
  have settled := (solves_require lowered.least).of_planned_eq lowered.plan
  rwa [requirement_require lowered.least, ← lowered.requirement_eq] at settled

end

/-- The last passes keep the plan and carry it out. -/
structure Closed (g : Graph) (after : Workspace) : Prop where
  formed : after.graph.WellFormed
  plan : after.graph.planned = g.planned
  resolved : ∀ {id : TensorId} {tensor : Tensor}, after.graph.tensors[id.index]? = some tensor →
    tensor.Resolved
  chosen : ∀ site, after.graph.Hosts site → site.ModeChosen
  checked : after.graph.checkFinal = .ok ()
  written : after.graph.image = .ok (after.image.getD #[], after.records)

theorem closing_ensures {w : Workspace} (formed : w.graph.WellFormed) (aligned : w.graph.Aligned)
    (answerable : w.graph.Answerable) (maxRounds : Nat) :
    (Pipeline.run Pipeline.closing).Ensures w
      (fun report after => report.rounds = 0 ∧ Closed w.graph after)
      fun error _ => Explained maxRounds w.graph.tensors.size error := by
  simp only [Pipeline.closing, Pipeline.ensures_run_cons, Pipeline.ensures_run_nil,
    Pipeline.ensures_runStep_pass, Pass.batchSupport, Pass.finalizeLayout, Pass.finalCheck,
    Pass.ensures_updating, Pass.ensures_checking, Pass.ensures_serialize]
  have batch := (Batching.determine_ensures formed.wired).and (wellFormed_batch _ formed)
  refine batch.mono ?_ fun _ _ impossible => impossible.1.elim
  intro _ batched reached
  obtain ⟨⟨plan, -⟩, formed⟩ := reached
  have finalize := (Layout.finalize_ensures formed.wired).and (wellFormed_finalize _ formed)
  refine finalize.mono ?_ ?_
  · intro _ after reached
    obtain ⟨⟨plan', resolved, chosen, -⟩, formed⟩ := reached
    have same := plan'.trans plan
    have decided (id : StageId) (stage : Stage) (atId : after.stages[id.index]? = some stage) :
        stage.operation.Decided := by
      obtain ⟨site, hosts, rfl, rfl⟩ := formed.wired.exists_site atId
      exact (chosen site hosts).decided
    have settled : after.Settled := ⟨formed, aligned.of_planned_eq same,
      (answerable.of_planned_eq same).widens, resolved, decided⟩
    refine ⟨fun checked => ⟨fun image records written => ⟨rfl, ?_⟩, ?_⟩, ?_⟩
    · exact ⟨formed, same, resolved, chosen, checked, written⟩
    · intro error failed
      rw [← size_tensors_of_undecided_eq (undecided_eq_of_planned_eq same)]
      exact settled.image_error failed
    · intro error failed
      exact .inl (settled.checkFinal_error failed)
  · intro error _ refused
    obtain ⟨⟨id, tensor, stride, -, failed, rfl⟩, -⟩ := refused
    exact .inl (.infeasibleStride (Tensor.demanded_lt_of_resolveFrom failed))

theorem decisions_ensures {w : Workspace} (formed : w.graph.WellFormed) (maxRounds : Nat) :
    (Pipeline.run (Pipeline.decisions maxRounds)).Ensures w
      (fun report after => ∃ ordered r, Lowered w.graph ordered r
        ⟨after.image.getD #[], report, after.records⟩ after.graph)
      fun error _ => Explained maxRounds w.graph.tensors.size error := by
  rw [Pipeline.ensures_decisions]
  have order := (AxisOrder.propagate_ensures formed).and
    (AxisOrder.requirement_propagate w.graph.requirement w.graph rfl)
  refine order.mono ?_ ?_
  · intro _ ordered reached
    obtain ⟨⟨formed, built, aligned⟩, kept⟩ := reached
    have settle := Negotiation.rounds_ensures (w := { w with graph := ordered }) formed aligned
      maxRounds
    refine settle.mono ?_ fun _ _ refused => .inl refused.1
    intro report _ reached
    obtain ⟨r, rfl, formed, least, answerable, rounds, settled, -⟩ := reached
    have grown : (ordered.require r).undecided = w.graph.undecided :=
      (undecided_require ordered r).trans built
    rw [← size_tensors_of_undecided_eq grown]
    refine (closing_ensures (w := { w with graph := ordered.require r }) formed aligned.require
      answerable.require maxRounds).mono ?_ fun _ _ => id
    intro later after closed
    obtain ⟨none, closed⟩ := closed
    have same : after.graph.undecided = w.graph.undecided :=
      (undecided_eq_of_planned_eq closed.plan).trans grown
    refine ⟨ordered, r, closed.formed, same, kept, aligned, answerable, least, ?_, ?_, closed.plan,
      closed.resolved, closed.chosen, closed.checked, closed.written⟩
    · simpa [PassReport.merge, PassReport.ofUpdates, none] using rounds
    · simpa [PassReport.merge, PassReport.ofUpdates, none] using settled
  · intro error _ refused
    obtain ⟨⟨-, -, site, -, uncovered, rfl⟩, -⟩ := refused
    exact .inl (.uncovered uncovered)

/-- What lowering a well-formed graph leads to: a lowered graph, or an error that the network
explains. -/
theorem compile_explains (formed : g.WellFormed) (settings : Settings) :
    (compile settings).Ensures g
      (fun compiled after => ∃ ordered r, Lowered g ordered r compiled after)
      fun error _ => Explained settings.maxRounds g.tensors.size error := by
  refine ensures_compile_of ?_ (fun _ _ => ?_) fun _ _ => ?_
  · intro error failed
    obtain ⟨name, rfl | rfl⟩ := validate_error formed.wired failed
    · exact .inl .orphan
    · exact .inl .unproduced
  · refine (decisions_ensures (w := .ofGraph g) formed settings.maxRounds).mono ?_ fun _ _ => id
    intro report after reached
    obtain ⟨ordered, r, lowered⟩ := reached
    exact ⟨ordered, r, lowered.of_planned_eq rfl (Nat.zero_add _)⟩
  · have scaled := ((Scale.propagate_ensures formed.wired settings.inputScales).and
      (wellFormed_scale settings.inputScales g formed)).and
        (planned_scale g.planned settings.inputScales g rfl)
    refine scaled.mono ?_ ?_
    · intro _ h reached
      obtain ⟨⟨rescaled, formed'⟩, same⟩ := reached
      rw [← size_tensors_of_undecided_eq rescaled.undecided]
      refine (decisions_ensures (w := .ofGraph h) formed' settings.maxRounds).mono ?_ fun _ _ => id
      intro report after reached
      obtain ⟨ordered, r, lowered⟩ := reached
      refine ⟨ordered, r, lowered.of_planned_eq same ?_⟩
      simp [PassReport.merge, PassReport.ofUpdates]
    · intro error _ refused
      obtain ⟨⟨⟨⟨tensor, stage, current, requested, rfl⟩, -⟩, -⟩, -⟩ := refused
      exact .inl .scaleMismatch

/-- Running out of rounds takes a bound below two. -/
theorem compile_ensures (formed : g.WellFormed) (settings : Settings) :
    (compile settings).Ensures g (fun compiled after => ∃ ordered r, Lowered g ordered r compiled after)
      fun error _ => settings.maxRounds ≤ 1 ∨
        ∀ passes rounds, error ≠ .negotiation (.notConverged passes rounds) := by
  refine (compile_explains formed settings).mono (fun _ _ => id) fun error _ explained => ?_
  rcases explained with foreseen | ⟨-, failure, rfl⟩
  · cases foreseen with
    | notConverged few => exact .inl few
    | _ => simp
  · simp

theorem WellFormed.exists_lowered (formed : g.WellFormed) {settings : Settings}
    {compiled : Compiled} {after : Graph} (succeeded : compile settings g = .ok compiled after) :
    ∃ ordered r, Lowered g ordered r compiled after :=
  (compile_ensures formed settings).of_ok succeeded

/-- The spread row takes two rounds and has an image of one record. -/
theorem compile_spreadRow : ∃ compiled after, compile {} spreadRow = .ok compiled after ∧
    compiled.report.rounds = 2 ∧ compiled.records = 1 := by
  have numbers : ((compile {}).result? spreadRow).map
      (fun found => (found.1.report.rounds, found.1.records)) = some (2, 1) := by
    decide +kernel
  obtain ⟨found, ran, same⟩ := Option.map_eq_some_iff.mp numbers
  exact ⟨found.1, found.2, result?_eq_some_iff.mp ran, Prod.mk.inj same⟩

end Graph

end TensorLowering
