import TensorLowering.Proofs.Determinacy
import TensorLowering.Proofs.Outcome

/-!
Lowering a graph succeeds exactly if there is something that the graph can be lowered to, and then
comes to it, up to the order in which the stages were inserted.
-/

namespace TensorLowering

open Attempt TensorLowering.Graph

namespace Graph

variable {g h k : Graph} {settings : Settings}

/-- The lowering of the first graph ends with the second one, or with a rearrangement of it. -/
structure LowersTo (settings : Settings) (g h : Graph) : Prop extends Plans settings g h,
    Finished h where
  rounds : 2 ≤ settings.maxRounds ∨ h.requirement = g.requirement
  checked : h.checkFinal = .ok ()
  written : ∃ image records, h.image = .ok (image, records)

/-- A graph that comes out of the lowering of another one can be any rearrangement of it. -/
theorem LowersTo.of_finished (lowers : LowersTo settings g h) (plans : Plans settings g k)
    (finished : k.Finished) : LowersTo settings g k := by
  have same := lowers.toFinished.rearranged finished lowers.toPlans plans
  obtain ⟨image, records, written⟩ := lowers.written
  obtain ⟨image', written', -⟩ := same.image lowers.formed plans.formed written
  exact ⟨plans, finished, lowers.rounds.imp_right (lowers.toPlans.requirement_eq plans).trans,
    same.checkFinal lowers.formed.wired plans.formed.wired lowers.checked, image', records, written'⟩

/-- The last passes carry plans out, if anything can. -/
theorem closing_lowersTo {w : Workspace} (plans : Plans settings g w.graph)
    (rounds : 2 ≤ settings.maxRounds ∨ w.graph.requirement = g.requirement) :
    (Pipeline.run Pipeline.closing).Ensures w
      (fun _ after => after.graph.undecided = w.graph.undecided ∧
        LowersTo settings g after.graph ∧
          after.graph.image = .ok (after.image.getD #[], after.records))
      fun _ _ => ¬∃ h, LowersTo settings g h := by
  simp only [Pipeline.closing, Pipeline.ensures_run_cons, Pipeline.ensures_run_nil,
    Pipeline.ensures_runStep_pass, Pass.batchSupport, Pass.finalizeLayout, Pass.finalCheck,
    Pass.ensures_updating, Pass.ensures_checking, Pass.ensures_serialize]
  have batch := ((Batching.determine_ensures plans.formed.wired).and
    (wellFormed_batch _ plans.formed)).and (keeps_scale_batch _ rfl)
  refine batch.mono ?_ fun _ _ impossible => impossible.1.1.elim
  intro _ batched reached
  obtain ⟨⟨⟨plan, split, -⟩, formed⟩, scale⟩ := reached
  have plans' := plans.of_planned_eq formed plan scale
  have finalize := (((Layout.finalize_ensures formed.wired).and
    (wellFormed_finalize _ formed)).and (keeps_scale_finalize _ rfl)).and
      (keeps_split_finalize _ split)
  refine finalize.mono ?_ ?_
  · intro _ after reached
    obtain ⟨⟨⟨⟨plan', resolved, chosen, -⟩, formed⟩, scale'⟩, split⟩ := reached
    have same : after.planned = w.graph.planned := plan'.trans plan
    have plans := plans'.of_planned_eq formed plan' scale'
    have finished : after.Finished := ⟨split, resolved, chosen⟩
    have enough : 2 ≤ settings.maxRounds ∨ after.requirement = g.requirement :=
      rounds.imp_right (requirement_of_planned_eq same).trans
    refine ⟨fun checked => ⟨fun image records written => ⟨undecided_eq_of_planned_eq same, ?_⟩,
      fun error failed => ?_⟩, fun error failed => ?_⟩
    · exact ⟨⟨plans, finished, enough, checked, image, records, written⟩, written⟩
    · rintro ⟨h, lowers⟩
      obtain ⟨image, records, written⟩ := (lowers.of_finished plans finished).written
      rw [failed] at written
      cases written
    · rintro ⟨h, lowers⟩
      have checked := (lowers.of_finished plans finished).checked
      rw [failed] at checked
      cases checked
  · rintro _ _ ⟨⟨⟨⟨id, tensor, stride, atId, failed, -⟩, -⟩, -⟩, -⟩ ⟨h, lowers⟩
    obtain ⟨tensor', atId', given, order, requirement, -⟩ :=
      plans'.exists_tensor lowers.toPlans atId
    have type : tensor'.type = tensor.type := (congrArg Tensor.type given :)
    have extents : tensor'.extents = tensor.extents := (congrArg Tensor.extents given :)
    obtain ⟨strides, resolved, -⟩ := lowers.resolved atId'
    rw [Tensor.resolveStrides_congr type extents order requirement, failed] at resolved
    cases resolved

namespace Places

variable (places : Places settings g k)

include places

/-- Where orders and scales are decided, the least requirements make it a plan. -/
theorem plans (requirement : k.requirement = g.requirement) {r : TensorId → Requirement}
    (formed : (k.require r).WellFormed) (answerable : k.Answerable)
    (least : IsLeast {r | k.Solves r} r) : Plans settings g (k.require r) := by
  have same := undecided_require k r
  refine ⟨places.of_undecided_eq formed same (order_require r) places.aligned.require
    (scale_require r), answerable.require, ?_⟩
  have network : SameNetwork k (k.require r) := .of_undecided_eq same.symm
  have solves : {r' | g.requirement ≤ r' ∧ ∀ site, (k.require r).Hosts site → site.MetBy r'} =
      {r' | k.Solves r'} := by
    ext r'
    rw [Set.mem_ofPred_eq, Set.mem_ofPred_eq, network.metBy_iff (order_require r), ← requirement]
    exact ⟨fun solves => ⟨solves.1, solves.2⟩, fun solves => ⟨solves.grown, solves.met⟩⟩
  rw [solves, requirement_require least]
  exact least

/-- Negotiation finds what the graph can be lowered to, if it can be. -/
theorem solvable (requirement : k.requirement = g.requirement) (lowers : LowersTo settings g h) :
    Negotiation.Solvable k settings.maxRounds := by
  refine ⟨lowers.answerable.of_sameNetwork (lowers.sameNetwork places), h.requirement, ?_,
    requirement ▸ lowers.rounds⟩
  have solves : {r | k.Solves r} =
      {r | g.requirement ≤ r ∧ ∀ site, h.Hosts site → site.MetBy r} := by
    ext r
    rw [Set.mem_ofPred_eq, Set.mem_ofPred_eq, ← lowers.metBy_iff places, ← requirement]
    exact ⟨fun solves => ⟨solves.grown, solves.met⟩, fun solves => ⟨solves.1, solves.2⟩⟩
  rw [solves]
  exact lowers.least

end Places

/-- The order of an input covers the output, if the graph can be lowered. -/
theorem Places.covers (places : Places settings g h) (network : SameNetwork k g)
    (formed : k.WellFormed) {site : Site} (hosts : k.Hosts site) :
    site.input.order.covers site.output.extents := by
  obtain ⟨site', hosts', same⟩ := (network.trans places.network).exists_site hosts
  obtain ⟨inputExtents, outputExtents⟩ := Site.extents_of_given_eq same
  have input := places.formed.shaped hosts'.input
  have output := places.formed.shaped hosts'.output
  have shaped := formed.shaped hosts.input
  refine (AxisOrder.covers_iff shaped.nodup).mpr fun axis => ?_
  rw [shaped.axes, ← inputExtents, ← outputExtents, ← input.axes, ← output.axes,
    places.aligned site' hosts']

theorem decisions_lowersTo {w : Workspace} (formed : w.graph.WellFormed)
    (plan : w.graph.planned = g.planned) (complete : w.graph.Complete)
    (scales : ScalesTo settings g w.graph) :
    (Pipeline.run (Pipeline.decisions settings.maxRounds)).Ensures w
      (fun _ after => after.graph.undecided = g.undecided ∧ LowersTo settings g after.graph ∧
        after.graph.image = .ok (after.image.getD #[], after.records))
      fun _ _ => ¬∃ h, LowersTo settings g h := by
  rw [Pipeline.ensures_decisions]
  have built := undecided_eq_of_planned_eq plan
  have order := (((AxisOrder.propagate_ensures formed).and
    (AxisOrder.requirement_propagate _ _ rfl)).and (keeps_scale_order _ rfl)).and
      (keeps_order_unwritten w.graph _ ⟨rfl, fun _ _ => rfl⟩)
  refine order.mono ?_ ?_
  · intro _ ordered reached
    obtain ⟨⟨⟨⟨formed', same, aligned⟩, kept⟩, scale⟩, -, orders⟩ := reached
    have network : SameNetwork w.graph ordered := .of_undecided_eq same.symm
    have complete' := complete.of_sameNetwork network
    have requirement := kept.trans (requirement_of_planned_eq plan)
    have places : Places settings g ordered := by
      refine ⟨formed', .of_undecided_eq (same.trans built).symm, complete', aligned,
        fun id unwritten => ?_, scales.of_scale_eq network formed'.wired complete' scale⟩
      rw [orders id (network.symm.unwritten unwritten), order_of_planned_eq plan]
    have settle := Negotiation.rounds_ensures (w := { w with graph := ordered }) formed' aligned
      settings.maxRounds
    refine settle.mono ?_ ?_
    · intro report _ reached
      obtain ⟨r, rfl, formed'', least, answerable, -, -, enough⟩ := reached
      have plans := places.plans requirement formed'' answerable least
      have rounds : 2 ≤ settings.maxRounds ∨ (ordered.require r).requirement = g.requirement := by
        rw [requirement_require least, ← requirement]
        exact enough
      have close := closing_lowersTo (w := { w with graph := ordered.require r }) plans rounds
      refine close.mono (fun _ after closed => ?_) fun _ _ => id
      exact ⟨closed.1.trans ((undecided_require ordered r).trans (same.trans built)), closed.2⟩
    · rintro _ _ ⟨-, unsolvable⟩ ⟨h, lowers⟩
      exact unsolvable (places.solvable requirement lowers)
  · rintro _ _ ⟨⟨⟨⟨formed', same, site, hosts, uncovered, -⟩, -⟩, -⟩, -⟩ ⟨h, lowers⟩
    exact uncovered (lowers.covers (.of_undecided_eq (same.trans built)) formed' hosts)

theorem ScalesTo.of_carries {s : TensorId → Float32}
    (carries : Scale.Carries g settings.inputScales g.stageIds s) (complete : g.Complete)
    (propagates : settings.propagateScales = true) : ScalesTo settings g (g.rescale s) := by
  unfold ScalesTo
  rw [if_pos propagates, rescale_rescale, rescale_scale]
  exact carries.transfer (.of_undecided_eq rfl) carries.wired complete
    (fun _ known => scale_rescale known) fun _ _ _ => id

/-- Scales are carried through as in every graph that the graph is lowered to. -/
theorem ScalesTo.carries (places : Places settings g h) (wired : g.Wired) (complete : g.Complete)
    (propagates : settings.propagateScales = true) :
    Scale.Carries g settings.inputScales g.stageIds h.scale := by
  have scales := places.scales
  unfold ScalesTo at scales
  rw [if_pos propagates] at scales
  have carries := scales.of_sameNetwork places.network.symm wired complete
  rwa [rescale_scale] at carries

/-- Lowering a graph that comes from building leads to a graph that it lowers to. It fails only if
there is none. -/
theorem compile_lowersTo (formed : g.WellFormed)
    (numbers : ∀ id, givenScale settings.inputScales id == givenScale settings.inputScales id) :
    (compile settings).Ensures g
      (fun compiled after => after.undecided = g.undecided ∧ LowersTo settings g after ∧
        after.image = .ok (compiled.image, compiled.records))
      fun _ _ => ¬∃ h, LowersTo settings g h := by
  refine ensures_compile_of ?_ ?_ ?_
  · rintro _ failed ⟨h, lowers⟩
    have complete := lowers.complete.of_sameNetwork lowers.network.symm
    rw [(complete_iff formed.wired).mpr complete] at failed
    cases failed
  · intro valid scales
    have stays : ScalesTo settings g g := by simp [ScalesTo, scales]
    exact decisions_lowersTo (w := .ofGraph g) formed rfl ((complete_iff formed.wired).mp valid) stays
  · intro valid scales
    have complete : g.Complete := (complete_iff formed.wired).mp valid
    have scaled := ((Scale.propagate_carries formed.wired valid numbers).and
      (wellFormed_scale settings.inputScales g formed)).and
        (planned_scale g.planned settings.inputScales g rfl)
    refine scaled.mono ?_ ?_
    · rintro _ _ ⟨⟨⟨s, rfl, carries⟩, formed'⟩, plan⟩
      exact decisions_lowersTo (w := .ofGraph (g.rescale s)) formed' plan
        (complete.rescale s) (.of_carries carries complete scales)
    · rintro _ _ ⟨⟨⟨-, obstructed⟩, -⟩, -⟩ ⟨h, lowers⟩
      exact (ScalesTo.carries lowers.toPlaces formed.wired complete scales).not_obstructed
        obstructed

theorem compile_eq_ok_iff (formed : g.WellFormed)
    (numbers : ∀ id, givenScale settings.inputScales id == givenScale settings.inputScales id) :
    (∃ compiled after, compile settings g = .ok compiled after) ↔ ∃ h, LowersTo settings g h := by
  have lowers := compile_lowersTo formed numbers
  constructor
  · rintro ⟨compiled, after, ran⟩
    exact ⟨after, (lowers.of_ok ran).2.1⟩
  · intro found
    cases ran : compile settings g with
    | ok compiled after => exact ⟨compiled, after, rfl⟩
    | error error after => exact absurd found (lowers.of_error ran)

/-- What a graph is lowered to depends on its network, and on what it comes with only as far as
orders, scales and solutions follow from that. -/
theorem LowersTo.transfer (lowers : LowersTo settings g k) (network : SameNetwork h k)
    (orders : ∀ id, k.Unwritten id → k.order id = h.order id) (scales : ScalesTo settings h k)
    (solutions : {r | h.requirement ≤ r ∧ ∀ site, k.Hosts site → site.MetBy r} =
      {r | g.requirement ≤ r ∧ ∀ site, k.Hosts site → site.MetBy r})
    (rounds : 2 ≤ settings.maxRounds ∨ k.requirement = h.requirement) : LowersTo settings h k :=
  ⟨⟨⟨lowers.formed, network, lowers.complete, lowers.aligned, orders, scales⟩, lowers.answerable,
    solutions ▸ lowers.least⟩, lowers.toFinished, rounds, lowers.checked, lowers.written⟩

/-- What a graph is lowered to is a rearrangement of everything that it lowers to. -/
theorem LowersTo.rearranged (lowers : LowersTo settings g h) (lowers' : LowersTo settings g k) :
    Rearranged h k :=
  lowers.toFinished.rearranged lowers'.toFinished lowers.toPlans lowers'.toPlans

end Graph

end TensorLowering
