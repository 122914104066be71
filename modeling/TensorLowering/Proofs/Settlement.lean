import TensorLowering.Proofs.Compilation

namespace TensorLowering

open Attempt TensorLowering.Graph

/-- Once the orders have been carried through, a round of negotiation succeeds exactly if every
stage has an answer that fits its tensors and some requirements above the present ones serve all
stages. It leaves the least such requirements, and nothing else changes. -/
theorem Pass.negotiateStrides_isLeast {w₀ w : Workspace} {report₀ : PassReport}
    (reachable : w₀.graph.Reachable) (ordered : propagateDataOrder.run w₀ = .ok report₀ w) :
    ((∃ report after, negotiateStrides.run w = .ok report after) ↔
      (∀ site, w.graph.Hosts site → site.Widens) ∧
        (∀ site, w.graph.Hosts site → site.DemandsFit) ∧ ∃ r, w.graph.Solves r) ∧
      ∀ {report : PassReport} {after : Workspace}, negotiateStrides.run w = .ok report after →
        IsLeast {r | w.graph.Solves r} after.graph.requirement ∧
          after = { w with graph := w.graph.require after.graph.requirement } := by
  have aligned : propagateDataOrder.run.Ensures w₀
      (fun _ after => after.graph.WellFormed ∧ after.graph.Aligned) fun _ _ => True := by
    rw [propagateDataOrder, ensures_updating]
    refine (AxisOrder.propagate_ensures reachable.wellFormed).mono ?_ fun _ _ _ => trivial
    intro _ after reached
    obtain ⟨formed, -, aligned⟩ := reached
    exact ⟨formed, aligned⟩
  obtain ⟨formed, aligned⟩ := aligned.of_ok ordered
  have negotiated : negotiateStrides.run.Ensures w
      (fun _ after => ∃ r, after = { w with graph := w.graph.require r } ∧
        IsLeast {r | w.graph.Solves r} r ∧ w.graph.Answerable)
      fun _ _ => ¬(w.graph.Answerable ∧ ∃ r, w.graph.Solves r) := by
    rw [negotiateStrides, ensures_updating]
    refine (Negotiation.negotiate_ensures formed aligned).mono ?_ fun _ _ => And.right
    intro _ after reached
    obtain ⟨r, rfl, -, least, -, answerable⟩ := reached
    exact ⟨r, rfl, least, answerable⟩
  refine ⟨⟨?_, ?_⟩, ?_⟩
  · intro found
    obtain ⟨report, after, succeeded⟩ := found
    obtain ⟨r, -, least, answerable⟩ := negotiated.of_ok succeeded
    exact ⟨answerable.widens, answerable.fits, r, least.1⟩
  · intro found
    obtain ⟨widens, fits, solvable⟩ := found
    cases outcome : negotiateStrides.run w with
    | ok report after => exact ⟨report, after, rfl⟩
    | error error after =>
      exact absurd ⟨⟨widens, fits⟩, solvable⟩ (negotiated.of_error outcome)
  · intro report after succeeded
    obtain ⟨r, rfl, least, -⟩ := negotiated.of_ok succeeded
    have asked := requirement_require least
    exact ⟨asked.symm ▸ least, by rw [asked]⟩

theorem Pass.negotiateStrides_spreadRow :
    ∃ report after, negotiateStrides.run (.ofGraph spreadRow) = .ok report after ∧
      IsLeast {r | spreadRow.Solves r} after.graph.requirement := by
  have reachable : (Workspace.ofGraph spreadRow).graph.Reachable := reachable_widenedRow _
  have ordered : propagateDataOrder.run (.ofGraph spreadRow) = .ok {} (.ofGraph spreadRow) := by
    with_unfolding_all rfl
  have spread : negotiateStrides.run (.ofGraph spreadRow) = .ok (.ofUpdates 1)
      (.ofGraph (spreadRow.modifyTensor ⟨1⟩ fun tensor =>
        { tensor with requirement := Requirement.empty.set 0 (.fixed 8) })) := by
    with_unfolding_all rfl
  have least := (negotiateStrides_isLeast reachable ordered).2 spread
  exact ⟨_, _, spread, least.1⟩

namespace Graph

variable {g ordered h : Graph} {r : TensorId → Requirement} {compiled : Compiled}

namespace Lowered

/-- Another round of negotiation finds nothing to do. -/
theorem negotiate_eq (lowered : Lowered g ordered r compiled h) :
    Negotiation.negotiate h = .ok 0 h :=
  Negotiation.negotiate_of_solves lowered.formed lowered.aligned_after
    (lowered.answerable.require.of_planned_eq lowered.plan) lowered.solves

/-- The stages of the lowered graph are served by the same requirements as before negotiation. -/
theorem metBy_iff (lowered : Lowered g ordered r compiled h) {s : TensorId → Requirement} :
    (∀ site, h.Hosts site → site.MetBy s) ↔ ∀ site, ordered.Hosts site → site.MetBy s := by
  rw [metBy_iff_of_planned_eq lowered.plan]
  constructor
  · intro all site hosts
    exact all (site.require r) (hosts.require r)
  · intro all site hosts
    obtain ⟨before, hosts', rfl⟩ := hosts_require_iff.mp hosts
    exact all before hosts'

/-- One round was enough exactly if the graph came with requirements that serve every stage. -/
theorem rounds_eq_one_iff (lowered : Lowered g ordered r compiled h) :
    compiled.report.rounds = 1 ↔ ∀ site, h.Hosts site → site.MetBy g.requirement := by
  rw [lowered.settled, lowered.metBy_iff, ← lowered.kept]
  constructor
  · rintro rfl
    exact lowered.least.1.met
  · intro met
    exact le_antisymm (lowered.least.2 ⟨le_rfl, met⟩) lowered.least.1.grown

end Lowered

/-- Negotiation takes at most two rounds. It takes one exactly if the requirements that the graph
came with serve every stage, in the orders that it ends up with, and after a lowering there is
nothing left to negotiate. -/
theorem Reachable.compile_rounds (reachable : g.Reachable) (settings : Settings) :
    (2 ≤ settings.maxRounds → ∀ passes rounds after,
      compile settings g ≠ .error (.negotiation (.notConverged passes rounds)) after) ∧
    ∀ compiled after, compile settings g = .ok compiled after →
      (compiled.report.rounds = 1 ∨ compiled.report.rounds = 2) ∧
      (compiled.report.rounds = 1 ↔ ∀ site, after.Hosts site → site.MetBy g.requirement) ∧
      ∀ w : Workspace, w.graph = after →
        ∃ report, Pass.negotiateStrides.run w = .ok report w ∧ report.changed = false := by
  have lowering := compile_ensures reachable.wellFormed settings
  refine ⟨fun enough passes rounds after failed => ?_, fun compiled after succeeded => ?_⟩
  · rcases lowering.of_error failed with few | other
    · omega
    · exact other passes rounds rfl
  · obtain ⟨ordered, r, lowered⟩ := lowering.of_ok succeeded
    refine ⟨lowered.rounds, lowered.rounds_eq_one_iff, ?_⟩
    rintro w rfl
    exact ⟨.ofUpdates 0, Pass.updating_eq_ok lowered.negotiate_eq, rfl⟩

theorem compile_rounds_spreadRow :
    ∃ compiled after, compile {} spreadRow = .ok compiled after ∧ compiled.report.rounds = 2 ∧
      ∃ report, Pass.negotiateStrides.run (.ofGraph after) = .ok report (.ofGraph after) ∧
        report.changed = false := by
  obtain ⟨compiled, after, succeeded, two, -⟩ := compile_spreadRow
  have settled := (Reachable.compile_rounds (reachable_widenedRow _) {}).2 compiled after succeeded
  exact ⟨compiled, after, succeeded, two, settled.2.2 (.ofGraph after) rfl⟩

end Graph

end TensorLowering
