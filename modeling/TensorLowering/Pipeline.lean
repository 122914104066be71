import TensorLowering.Attempt

namespace TensorLowering

structure PassReport where
  changed : Bool := false
  rounds : Nat := 0
  updated : Nat := 0
  deriving DecidableEq, Repr

namespace PassReport

def ofUpdates (updated : Nat) : PassReport := ⟨0 < updated, 0, updated⟩

def merge (first second : PassReport) : PassReport :=
  ⟨first.changed || second.changed, first.rounds + second.rounds, first.updated + second.updated⟩

end PassReport

/-- A named piece of work on a state. -/
structure Pass (σ : Type) where
  name : String
  run : Attempt σ PassReport

/-- Does a pass on one part of a larger state. -/
def Pass.within {σ τ : Type} (part : τ → σ) (replace : τ → σ → τ) (pass : Pass σ) : Pass τ :=
  ⟨pass.name, pass.run.within part replace⟩

/-- A step of a pipeline: a pass, or steps that are repeated until nothing changes, for at most
`maxRounds` rounds. A bound of no rounds still allows one. -/
inductive Step (σ : Type) where
  | pass (pass : Pass σ)
  | fixedPoint (maxRounds : Nat) (steps : List (Step σ))

mutual

def Step.within {σ τ : Type} (part : τ → σ) (replace : τ → σ → τ) : Step σ → Step τ
  | .pass pass => .pass (pass.within part replace)
  | .fixedPoint maxRounds steps => .fixedPoint maxRounds (stepsWithin part replace steps)

def stepsWithin {σ τ : Type} (part : τ → σ) (replace : τ → σ → τ) : List (Step σ) → List (Step τ)
  | [] => []
  | step :: rest => step.within part replace :: stepsWithin part replace rest

end

namespace Pipeline

variable {σ : Type}

mutual

def stepNames : Step σ → List String
  | .pass pass => [pass.name]
  | .fixedPoint _ steps => passNames steps

def passNames : List (Step σ) → List String
  | [] => []
  | step :: rest => stepNames step ++ passNames rest

end

/-- One round, counted in its report. -/
def countRound (round : Attempt σ PassReport) : Attempt σ PassReport := do
  let report ← round
  return { report with rounds := report.rounds + 1 }

/-- Repeats a round until one changes nothing. After the next round `more` may follow; `finished`
rounds came before it. -/
def repeatRounds (names : List String) (round : Attempt σ PassReport) (finished : Nat) :
    (more : Nat) → Attempt σ PassReport
  | 0 => do
    let report ← countRound round
    if report.changed then
      throw (.negotiation (.notConverged names (finished + 1)))
    else
      return report
  | more + 1 => do
    let report ← countRound round
    if report.changed then
      let later ← repeatRounds names round (finished + 1) more
      return report.merge later
    else
      return report

mutual

def runStep : Step σ → Attempt σ PassReport
  | .pass pass => pass.run
  | .fixedPoint maxRounds steps => repeatRounds (passNames steps) (run steps) 0 (maxRounds - 1)

/-- Runs the steps one after another and reports on all of them. The first failure ends the run. -/
def run : List (Step σ) → Attempt σ PassReport
  | [] => pure {}
  | step :: rest => do
    let here ← runStep step
    let later ← run rest
    return here.merge later

end

end Pipeline

end TensorLowering
