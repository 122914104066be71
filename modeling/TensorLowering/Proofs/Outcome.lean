import TensorLowering.Proofs.Compilation

namespace TensorLowering

open Attempt

namespace Pipeline

variable {σ : Type} {kept : σ → Prop}

/-- What a round keeps, any number of rounds keeps. -/
theorem keeps_repeatRounds {names : List String} {round : Attempt σ PassReport}
    (keeps : Keeps kept round) (finished more : Nat) :
    Keeps kept (repeatRounds names round finished more) := by
  have counted : Keeps kept (countRound round) := keeps.bind fun _ => keeps_pure _
  induction more generalizing finished with
  | zero =>
    refine counted.bind fun report now before => ?_
    rw [ensures_ite]
    exact ⟨fun _ => before, fun _ => before⟩
  | succ more ih =>
    refine counted.bind fun report now before => ?_
    rw [ensures_ite]
    exact ⟨fun _ => (ih (finished + 1)).bind (fun _ => keeps_pure _) now before, fun _ => before⟩

theorem keeps_run_nil : Keeps kept (run []) := fun _ before => by simpa using before

theorem keeps_run_cons {step : Step σ} {rest : List (Step σ)} (here : Keeps kept (runStep step))
    (later : Keeps kept (run rest)) : Keeps kept (run (step :: rest)) := by
  intro now before
  rw [ensures_run_cons]
  exact (here now before).mono (fun _ after held => later after held) fun _ _ => id

theorem keeps_run_pass {pass : Pass σ} {rest : List (Step σ)} (here : Keeps kept pass.run)
    (later : Keeps kept (run rest)) : Keeps kept (run (.pass pass :: rest)) :=
  keeps_run_cons (fun now before => by simpa using here now before) later

section

variable {kept : Workspace → Prop}

theorem keeps_rounds (negotiate : Keeps kept Pass.negotiateStrides.run) (maxRounds : Nat) :
    Keeps kept (runStep (.fixedPoint maxRounds [.pass .negotiateStrides])) := by
  rw [runStep]
  exact keeps_repeatRounds (keeps_run_pass negotiate keeps_run_nil) _ _

theorem keeps_closing (batch : Keeps kept Pass.batchSupport.run)
    (finalize : Keeps kept Pass.finalizeLayout.run) (check : Keeps kept Pass.finalCheck.run)
    (serialize : Keeps kept Pass.serialize.run) : Keeps kept (run closing) :=
  keeps_run_pass batch <| keeps_run_pass finalize <| keeps_run_pass check <|
    keeps_run_pass serialize keeps_run_nil

/-- What every pass keeps, the whole lowering keeps, also where it stops halfway. -/
theorem keeps_standard {settings : Settings}
    (each : ∀ pass ∈ Pass.all settings, Keeps kept pass.run) :
    Keeps kept (run (standard settings)) := by
  simp only [Pass.all, List.forall_mem_cons] at each
  obtain ⟨validate, scale, order, negotiate, batch, finalize, check, serialize, -⟩ := each
  have decisions : Keeps kept (run (decisions settings.maxRounds)) :=
    keeps_run_pass order (keeps_run_cons (keeps_rounds negotiate settings.maxRounds)
      (keeps_closing batch finalize check serialize))
  rw [standard_eq]
  refine keeps_run_pass validate ?_
  split
  · exact keeps_run_pass scale decisions
  · exact decisions

end

end Pipeline

namespace Graph

variable {g : Graph}

/-- A graph that was lowered, or that a lowering gave up on, can be built further. -/
theorem Reachable.state_compile (reachable : g.Reachable) (settings : Settings) :
    (Attempt.state (compile settings) g).Reachable := by
  have keeps : Keeps (fun w : Workspace => w.graph.Reachable)
      (Pipeline.run (Pipeline.standard settings)) :=
    Pipeline.keeps_standard fun _ member => keeps_iff_state.mpr fun _ before => before.pass member
  exact ensures_iff_state.mp (ensures_compile.mpr (keeps (.ofGraph g) reachable))

/-- A graph that was built step by step, and that was lowered before or not, is lowered or refused
for a reason that lies in the network or in the bound on rounds. -/
theorem Reachable.compile_outcome (reachable : g.Reachable) (few : g.tensors.size < UInt32.size)
    (settings : Settings) :
    (Attempt.state (compile settings) g).Reachable ∧
    ((∃ compiled after, compile settings g = .ok compiled after) ∨
      ∃ error after, compile settings g = .error error after ∧
        Foreseen settings.maxRounds error ∧ ¬error.IsDefect) := by
  refine ⟨reachable.state_compile settings, ?_⟩
  have explained := compile_explains reachable.wellFormed settings
  cases outcome : compile settings g with
  | ok compiled after => exact .inl ⟨compiled, after, rfl⟩
  | error error after =>
    rcases explained.of_error outcome with foreseen | ⟨many, -⟩
    · exact .inr ⟨error, after, rfl, foreseen, foreseen.not_isDefect⟩
    · omega

/-- One round is too few for the spread row. -/
theorem compile_outcome_spreadRow :
    ∃ error after, compile { maxRounds := 1 } spreadRow = .error error after ∧
      after.Reachable ∧ Foreseen 1 error := by
  have few : spreadRow.tensors.size < UInt32.size := by decide
  have built : spreadRow.Reachable := reachable_widenedRow _
  obtain ⟨reachable, outcome⟩ := Reachable.compile_outcome built few { maxRounds := 1 }
  have stopped : (match compile { maxRounds := 1 } spreadRow with
      | .ok _ _ => true
      | .error _ _ => false) = false := by
    decide +kernel
  rcases outcome with ⟨compiled, after, succeeded⟩ | ⟨error, after, failed, foreseen, -⟩
  · rw [succeeded] at stopped
    cases stopped
  · exact ⟨error, after, failed, by simpa [Attempt.state, failed] using reachable, foreseen⟩

end Graph

end TensorLowering
