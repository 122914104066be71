import Mathlib.Algebra.Ring.Nat
import TensorLowering.Proofs.Attempt
import TensorLowering.Pipeline

/-!
What a run of a pipeline does, told by itself: which passes are executed, on what, and when a round
comes to its end.
-/

namespace TensorLowering.Pipeline

open Attempt

variable {σ : Type}

inductive Event (σ : Type) where
  | ran (pass : Pass σ) (before : σ) (report : PassReport) (after : σ)
  | failed (pass : Pass σ) (before : σ) (error : LoweringError) (after : σ)
  /-- A round of a fixed point is over. -/
  | round

def Event.report? : Event σ → Option PassReport
  | ran _ _ report _ => some report
  | _ => none

def Event.isRound : Event σ → Bool
  | round => true
  | _ => false

/-- What the executed passes have reported. -/
def reports (log : List (Event σ)) : List PassReport := log.filterMap Event.report?

/-- Some pass has reported a change. -/
def Changed (log : List (Event σ)) : Prop := ∃ report ∈ reports log, report.changed = true

mutual

/-- Steps are taken one after another, up to one that fails. -/
inductive Runs : List (Step σ) → σ → List (Event σ) → Option LoweringError → σ → Prop
  | nil {now : σ} : Runs [] now [] none now
  | cons {step : Step σ} {rest : List (Step σ)} {now middle after : σ} {log later : List (Event σ)}
      {failure : Option LoweringError} : Takes step now log none middle →
      Runs rest middle later failure after → Runs (step :: rest) now (log ++ later) failure after
  | stop {step : Step σ} {rest : List (Step σ)} {now after : σ} {log : List (Event σ)}
      {error : LoweringError} : Takes step now log (some error) after →
      Runs (step :: rest) now log (some error) after

/-- A pass is executed. A fixed point repeats its steps up to the first round that reports no change
or fails; it fails itself if as many rounds as are allowed, and at least one, have reported a
change. -/
inductive Takes : Step σ → σ → List (Event σ) → Option LoweringError → σ → Prop
  | ran {pass : Pass σ} {now after : σ} {report : PassReport} :
      pass.run now = .ok report after → Takes (.pass pass) now [.ran pass now report after] none after
  | failed {pass : Pass σ} {now after : σ} {error : LoweringError} :
      pass.run now = .error error after →
      Takes (.pass pass) now [.failed pass now error after] (some error) after
  | settled {maxRounds rounds : Nat} {steps : List (Step σ)} {now middle after : σ}
      {log last : List (Event σ)} : Repeats steps rounds now log middle →
      rounds < max 1 maxRounds → Runs steps middle last none after → ¬Changed last →
      Takes (.fixedPoint maxRounds steps) now (log ++ (last ++ [.round])) none after
  | interrupted {maxRounds rounds : Nat} {steps : List (Step σ)} {now middle after : σ}
      {log last : List (Event σ)} {error : LoweringError} : Repeats steps rounds now log middle →
      rounds < max 1 maxRounds → Runs steps middle last (some error) after →
      Takes (.fixedPoint maxRounds steps) now (log ++ last) (some error) after
  | exhausted {maxRounds : Nat} {steps : List (Step σ)} {now after : σ} {log : List (Event σ)} :
      Repeats steps (max 1 maxRounds) now log after →
      Takes (.fixedPoint maxRounds steps) now log
        (some (.negotiation (.notConverged (passNames steps) (max 1 maxRounds)))) after

/-- So many rounds in a row, each of which reports a change. -/
inductive Repeats : List (Step σ) → Nat → σ → List (Event σ) → σ → Prop
  | start {steps : List (Step σ)} {now : σ} : Repeats steps 0 now [] now
  | again {steps : List (Step σ)} {rounds : Nat} {now middle after : σ} {log last : List (Event σ)} :
      Repeats steps rounds now log middle → Runs steps middle last none after → Changed last →
      Repeats steps (rounds + 1) now (log ++ (last ++ [.round])) after

end

/-! ### What is counted -/

/-- What a run reports in total. -/
def totals (log : List (Event σ)) : PassReport where
  changed := (reports log).any (·.changed)
  rounds := log.countP Event.isRound + ((reports log).map (·.rounds)).sum
  updated := ((reports log).map (·.updated)).sum

theorem changed_totals_iff {log : List (Event σ)} : (totals log).changed = true ↔ Changed log := by
  simp [totals, Changed]

theorem totals_append (log later : List (Event σ)) :
    totals (log ++ later) = (totals log).merge (totals later) := by
  simp only [totals, reports, PassReport.merge, List.filterMap_append, List.any_append,
    List.countP_append, List.map_append, List.sum_append]
  congr 1
  omega

theorem totals_ran (pass : Pass σ) (now : σ) (report : PassReport) (after : σ) :
    totals [.ran pass now report after] = report := by
  simp [totals, reports, Event.report?, Event.isRound]

theorem totals_round (log : List (Event σ)) :
    totals (log ++ [.round]) = { totals log with rounds := (totals log).rounds + 1 } := by
  have one : totals [(.round : Event σ)] = ⟨false, 1, 0⟩ := rfl
  simp [totals_append, one, PassReport.merge]

/-- How a run with such a history ends. -/
def conclude (log : List (Event σ)) (failure : Option LoweringError) (after : σ) :
    EStateM.Result LoweringError σ PassReport :=
  match failure with
  | none => .ok (totals log) after
  | some error => .error error after

/-! ### Every run has a history -/

section

variable {names : List String} {steps : List (Step σ)} {step : Step σ} {rest : List (Step σ)}
  {now middle after : σ} {log last later : List (Event σ)} {error : LoweringError}
  {failure : Option LoweringError} {rounds more maxRounds : Nat}

/-- A round that is counted is one that is entered at its end. -/
theorem countRound_run (ran : run steps now = conclude last none after) :
    countRound (run steps) now = conclude (last ++ [.round]) none after := by
  simp only [countRound, bind, EStateM.bind, ran, conclude, totals_round]
  rfl

theorem changed_round_iff : (totals (last ++ [.round])).changed = true ↔ Changed last := by
  rw [totals_round]
  exact changed_totals_iff

theorem repeatRounds_of_error (ran : run steps now = conclude last (some error) after) :
    repeatRounds names (run steps) rounds more now = .error error after := by
  cases more <;> simp only [repeatRounds, countRound, bind, EStateM.bind, ran, conclude]

theorem repeatRounds_of_quiet (ran : run steps now = conclude last none after)
    (quiet : ¬Changed last) : repeatRounds names (run steps) rounds more now =
      conclude (last ++ [.round]) none after := by
  rw [← changed_round_iff] at quiet
  have counted := countRound_run ran
  cases more <;> simp only [repeatRounds, bind, EStateM.bind, counted, conclude, if_neg quiet] <;> rfl

theorem repeatRounds_zero_of_changed (ran : run steps now = conclude last none after)
    (changed : Changed last) : repeatRounds names (run steps) rounds 0 now =
      .error (.negotiation (.notConverged names (rounds + 1))) after := by
  rw [← changed_round_iff] at changed
  simp only [repeatRounds, bind, EStateM.bind, countRound_run ran, conclude, if_pos changed]
  rfl

theorem repeatRounds_succ_of_changed (ran : run steps now = conclude last none middle)
    (changed : Changed last)
    (again : repeatRounds names (run steps) (rounds + 1) more middle =
      conclude later failure after) :
    repeatRounds names (run steps) rounds (more + 1) now =
      conclude (last ++ [.round] ++ later) failure after := by
  rw [← changed_round_iff] at changed
  simp only [repeatRounds, bind, EStateM.bind, countRound_run ran, conclude, if_pos changed, again]
  cases failure with
  | none => exact congrArg (EStateM.Result.ok · after) (totals_append _ _).symm
  | some error => rfl

/-- From a round on, a fixed point either goes on or ends as its rules say. -/
theorem exists_takes_of_repeats (each : ∀ now : σ, ∃ log failure after,
      Runs steps now log failure after ∧ run steps now = conclude log failure after)
    {start : σ} (repeated : Repeats steps rounds start log now)
    (left : rounds + more + 1 = max 1 maxRounds) :
    ∃ later failure after, Takes (.fixedPoint maxRounds steps) start (log ++ later) failure after ∧
      repeatRounds (passNames steps) (run steps) rounds more now =
        conclude later failure after := by
  induction more generalizing rounds log now with
  | zero =>
    obtain ⟨last, failure, after, runs, ran⟩ := each now
    cases failure with
    | some error =>
      exact ⟨last, some error, after, .interrupted repeated (by omega) runs,
        repeatRounds_of_error ran⟩
    | none =>
      by_cases changed : Changed last
      · have full := repeated.again runs changed
        rw [show rounds + 1 = max 1 maxRounds by omega] at full
        refine ⟨last ++ [.round], _, after, .exhausted full, ?_⟩
        rw [repeatRounds_zero_of_changed ran changed, show rounds + 1 = max 1 maxRounds by omega]
        rfl
      · exact ⟨last ++ [.round], none, after, .settled repeated (by omega) runs changed,
          repeatRounds_of_quiet ran changed⟩
  | succ more ih =>
    obtain ⟨last, failure, after, runs, ran⟩ := each now
    cases failure with
    | some error =>
      exact ⟨last, some error, after, .interrupted repeated (by omega) runs,
        repeatRounds_of_error ran⟩
    | none =>
      by_cases changed : Changed last
      · obtain ⟨later, failure, final, takes, again⟩ := ih (repeated.again runs changed) (by omega)
        refine ⟨last ++ [.round] ++ later, failure, final, ?_,
          repeatRounds_succ_of_changed ran changed again⟩
        simpa only [List.append_assoc] using takes
      · exact ⟨last ++ [.round], none, after, .settled repeated (by omega) runs changed,
          repeatRounds_of_quiet ran changed⟩

end

mutual

theorem exists_takes (step : Step σ) (now : σ) : ∃ log failure after,
    Takes step now log failure after ∧ runStep step now = conclude log failure after := by
  cases step with
  | pass pass =>
    cases ran : pass.run now with
    | ok report after =>
      refine ⟨_, none, after, .ran ran, ?_⟩
      rw [runStep, ran, conclude, totals_ran]
    | error error after => exact ⟨_, some error, after, .failed ran, by rw [runStep, ran, conclude]⟩
  | fixedPoint maxRounds steps =>
    rw [runStep]
    exact exists_takes_of_repeats (exists_runs steps) .start (by omega)

theorem exists_runs (steps : List (Step σ)) (now : σ) : ∃ log failure after,
    Runs steps now log failure after ∧ run steps now = conclude log failure after := by
  cases steps with
  | nil => exact ⟨[], none, now, .nil, rfl⟩
  | cons step rest =>
    obtain ⟨log, failure, middle, takes, ran⟩ := exists_takes step now
    cases failure with
    | some error =>
      refine ⟨log, some error, middle, .stop takes, ?_⟩
      simp only [run, bind, EStateM.bind, ran, conclude]
    | none =>
      obtain ⟨later, failure, after, runs, ran'⟩ := exists_runs rest middle
      refine ⟨log ++ later, failure, after, .cons takes runs, ?_⟩
      simp only [run, bind, EStateM.bind, ran, ran', conclude]
      cases failure with
      | none => exact congrArg (EStateM.Result.ok · after) (totals_append _ _).symm
      | some error => rfl

end

/-! ### A run has only one history -/

section

variable {steps : List (Step σ)} {now middle after middle' after' : σ}
  {log last log' last' : List (Event σ)} {failure failure' : Option LoweringError}
  {rounds rounds' maxRounds : Nat}

/-- From each state the steps run in one way only. -/
def Determined (steps : List (Step σ)) : Prop :=
  ∀ {now : σ} {log log' failure failure' after after'}, Runs steps now log failure after →
    Runs steps now log' failure' after' → log' = log ∧ failure' = failure ∧ after' = after

theorem Repeats.unique (only : Determined steps) (repeats : Repeats steps rounds now log middle)
    (repeats' : Repeats steps rounds now log' middle') : log' = log ∧ middle' = middle := by
  induction rounds generalizing log log' middle middle' with
  | zero =>
    cases repeats
    cases repeats'
    exact ⟨rfl, rfl⟩
  | succ rounds ih =>
    cases repeats with
    | again before runs changed =>
      cases repeats' with
      | again before' runs' changed' =>
        obtain ⟨rfl, rfl⟩ := ih before before'
        obtain ⟨rfl, -, rfl⟩ := only runs runs'
        exact ⟨rfl, rfl⟩

/-- Each of the rounds reports a change. -/
theorem Repeats.exists_round (repeats : Repeats steps rounds' now log' middle')
    (less : rounds < rounds') : ∃ log middle last next,
      Repeats steps rounds now log middle ∧ Runs steps middle last none next ∧ Changed last := by
  induction rounds' generalizing log' middle' with
  | zero => omega
  | succ count ih =>
    cases repeats with
    | again before runs changed =>
      rcases Nat.lt_succ_iff_lt_or_eq.mp less with earlier | rfl
      · exact ih before earlier
      · exact ⟨_, _, _, _, before, runs, changed⟩

/-- No rounds follow one that fails or reports no change. -/
theorem Repeats.le_of_stops (only : Determined steps) (repeats : Repeats steps rounds now log middle)
    (runs : Runs steps middle last failure after) (stops : Changed last → failure ≠ none)
    (repeats' : Repeats steps rounds' now log' middle') : rounds' ≤ rounds := by
  refine Nat.le_of_not_lt fun less => ?_
  obtain ⟨_, _, _, _, before, runs', changed⟩ := repeats'.exists_round less
  obtain ⟨-, rfl⟩ := repeats.unique only before
  obtain ⟨rfl, rfl, -⟩ := only runs runs'
  exact stops changed rfl

/-- The last round of a fixed point, if it fails or reports no change, is determined. -/
theorem Repeats.unique_of_stops (only : Determined steps)
    (repeats : Repeats steps rounds now log middle) (runs : Runs steps middle last failure after)
    (stops : Changed last → failure ≠ none) (repeats' : Repeats steps rounds' now log' middle')
    (runs' : Runs steps middle' last' failure' after') (stops' : Changed last' → failure' ≠ none) :
    log' = log ∧ last' = last ∧ failure' = failure ∧ after' = after := by
  obtain rfl : rounds' = rounds := Nat.le_antisymm (repeats.le_of_stops only runs stops repeats')
    (repeats'.le_of_stops only runs' stops' repeats)
  obtain ⟨rfl, rfl⟩ := repeats.unique only repeats'
  obtain ⟨rfl, rfl, rfl⟩ := only runs runs'
  exact ⟨rfl, rfl, rfl, rfl⟩

theorem Takes.unique_fixedPoint (only : Determined steps)
    (takes : Takes (.fixedPoint maxRounds steps) now log failure after)
    (takes' : Takes (.fixedPoint maxRounds steps) now log' failure' after') :
    log' = log ∧ failure' = failure ∧ after' = after := by
  cases takes with
  | @settled _ _ _ _ _ _ _ last repeats within runs quiet =>
    have stops : Changed last → (none : Option LoweringError) ≠ none := (absurd · quiet)
    cases takes' with
    | settled repeats' _ runs' quiet' =>
      obtain ⟨rfl, rfl, -, rfl⟩ :=
        repeats.unique_of_stops only runs stops repeats' runs' (absurd · quiet')
      exact ⟨rfl, rfl, rfl⟩
    | interrupted repeats' _ runs' =>
      have same := (repeats.unique_of_stops only runs stops repeats' runs' fun _ =>
        Option.some_ne_none _).2.2.1
      cases same
    | exhausted repeats' =>
      exact absurd (repeats.le_of_stops only runs stops repeats') (Nat.not_le.mpr within)
  | @interrupted _ _ _ _ _ _ _ last error repeats within runs =>
    have stops : Changed last → some error ≠ none := fun _ => Option.some_ne_none error
    cases takes' with
    | settled repeats' _ runs' quiet' =>
      have same :=
        (repeats.unique_of_stops only runs stops repeats' runs' (absurd · quiet')).2.2.1
      cases same
    | interrupted repeats' _ runs' =>
      obtain ⟨rfl, rfl, same, rfl⟩ :=
        repeats.unique_of_stops only runs stops repeats' runs' fun _ => Option.some_ne_none _
      exact ⟨rfl, same, rfl⟩
    | exhausted repeats' =>
      exact absurd (repeats.le_of_stops only runs stops repeats') (Nat.not_le.mpr within)
  | exhausted repeats =>
    cases takes' with
    | settled repeats' within runs' quiet' =>
      exact absurd (repeats'.le_of_stops only runs' (absurd · quiet') repeats)
        (Nat.not_le.mpr within)
    | interrupted repeats' within runs' =>
      exact absurd (repeats'.le_of_stops only runs' (fun _ => Option.some_ne_none _) repeats)
        (Nat.not_le.mpr within)
    | exhausted repeats' =>
      obtain ⟨rfl, rfl⟩ := repeats.unique only repeats'
      exact ⟨rfl, rfl, rfl⟩

end

mutual

theorem Takes.unique (step : Step σ) {now after after' : σ} {log log' : List (Event σ)}
    {failure failure' : Option LoweringError} (takes : Takes step now log failure after)
    (takes' : Takes step now log' failure' after') :
    log' = log ∧ failure' = failure ∧ after' = after := by
  cases step with
  | pass pass =>
    cases takes with
    | ran ran =>
      cases takes' with
      | ran ran' =>
        cases ran.symm.trans ran'
        exact ⟨rfl, rfl, rfl⟩
      | failed ran' => cases ran.symm.trans ran'
    | failed ran =>
      cases takes' with
      | ran ran' => cases ran.symm.trans ran'
      | failed ran' =>
        cases ran.symm.trans ran'
        exact ⟨rfl, rfl, rfl⟩
  | fixedPoint maxRounds steps => exact takes.unique_fixedPoint (Runs.unique steps) takes'

theorem Runs.unique (steps : List (Step σ)) : Determined steps := by
  intro now log log' failure failure' after after' runs runs'
  cases steps with
  | nil =>
    cases runs
    cases runs'
    exact ⟨rfl, rfl, rfl⟩
  | cons step rest =>
    cases runs with
    | cons takes runs =>
      cases runs' with
      | cons takes' runs' =>
        obtain ⟨rfl, -, rfl⟩ := takes.unique step takes'
        obtain ⟨rfl, rfl, rfl⟩ := Runs.unique rest runs runs'
        exact ⟨rfl, rfl, rfl⟩
      | stop takes' => cases (takes.unique step takes').2.1
    | stop takes =>
      cases runs' with
      | cons takes' => cases (takes.unique step takes').2.1
      | stop takes' => exact takes.unique step takes'

end

/-! ### A failing pass ends the run -/

/-- Nothing is executed after a pass that fails, and the whole run ends as that pass does. -/
def Halts (log : List (Event σ)) (failure : Option LoweringError) (after : σ) : Prop :=
  ∀ earlier pass before error state later,
    log = earlier ++ .failed pass before error state :: later →
      later = [] ∧ failure = some error ∧ after = state

section

variable {steps : List (Step σ)} {now middle after : σ} {log later : List (Event σ)}
  {failure : Option LoweringError} {rounds maxRounds : Nat}

theorem halts_of_failed_not_mem
    (absent : ∀ pass before error state, .failed pass before error state ∉ log) :
    Halts log failure after := by
  intro earlier pass before error state later split
  exact absurd (split ▸ List.mem_append_right _ (List.mem_cons_self ..))
    (absent pass before error state)

/-- A run that succeeds has met no failing pass. -/
theorem Halts.failed_not_mem (halts : Halts log none middle) (pass : Pass σ) (before : σ)
    (error : LoweringError) (state : σ) : .failed pass before error state ∉ log := by
  intro member
  obtain ⟨earlier, later, split⟩ := List.append_of_mem member
  cases (halts _ _ _ _ _ _ split).2.1

theorem Halts.append (halts : Halts log none middle) (halts' : Halts later failure after) :
    Halts (log ++ later) failure after := by
  intro earlier pass before error state tail both
  rcases List.append_eq_append_iff.mp both with ⟨between, rfl, split⟩ | ⟨between, rfl, split⟩
  · exact halts' _ _ _ _ _ _ split
  · cases between with
    | nil => exact halts' [] _ _ _ _ _ split.symm
    | cons event between =>
      obtain ⟨rfl, rfl⟩ := List.cons.inj split
      exact absurd (by simp) (halts.failed_not_mem pass before error state)

theorem Halts.round (halts : Halts log none after) : Halts (log ++ [.round]) none after :=
  halts.append (halts_of_failed_not_mem (by simp))

theorem Repeats.halts (each : ∀ {now : σ} {log failure after},
      Runs steps now log failure after → Halts log failure after)
    (repeats : Repeats steps rounds now log middle) : Halts log none middle := by
  induction rounds generalizing log middle with
  | zero =>
    cases repeats
    exact halts_of_failed_not_mem (by simp)
  | succ rounds ih =>
    cases repeats with
    | again before runs => exact (ih before).append (each runs).round

end

mutual

theorem Takes.halts (step : Step σ) {now after : σ} {log : List (Event σ)}
    {failure : Option LoweringError} (takes : Takes step now log failure after) :
    Halts log failure after := by
  cases step with
  | pass pass =>
    cases takes with
    | ran => exact halts_of_failed_not_mem (by simp)
    | failed =>
      intro earlier pass' before error state later split
      cases earlier with
      | nil =>
        obtain ⟨same, rfl⟩ := List.cons.inj split
        cases same
        exact ⟨rfl, rfl, rfl⟩
      | cons => simp at split
  | fixedPoint maxRounds steps =>
    cases takes with
    | settled repeats _ runs =>
      exact (repeats.halts (Runs.halts steps)).append (Runs.halts steps runs).round
    | interrupted repeats _ runs =>
      exact (repeats.halts (Runs.halts steps)).append (Runs.halts steps runs)
    | exhausted repeats =>
      exact halts_of_failed_not_mem (repeats.halts (Runs.halts steps)).failed_not_mem

theorem Runs.halts (steps : List (Step σ)) {now after : σ} {log : List (Event σ)}
    {failure : Option LoweringError} (runs : Runs steps now log failure after) :
    Halts log failure after := by
  cases steps with
  | nil =>
    cases runs
    exact halts_of_failed_not_mem (by simp)
  | cons step rest =>
    cases runs with
    | cons takes runs => exact (takes.halts step).append (Runs.halts rest runs)
    | stop takes => exact takes.halts step

end

/-- A bound of no rounds allows one, and the rounds of both levels are counted. -/
example : run [.fixedPoint 0 [.fixedPoint 0 [.pass ⟨"quiet", fun now => .ok {} now⟩]]] () =
    .ok ⟨false, 2, 0⟩ () := by
  rfl

end TensorLowering.Pipeline
