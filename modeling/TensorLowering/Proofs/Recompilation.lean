import TensorLowering.Proofs.LowersTo
import TensorLowering.Proofs.Reports

/-!
What a lowering leaves of a graph, also where it stops halfway, is lowered to the same as the graph
itself.
-/

namespace TensorLowering

open Attempt TensorLowering.Graph

namespace Graph

variable {g h k : Graph} {settings earlier : Settings}

/-- The second graph is the network of the first one in the orders that the first one comes with,
and every stage has something to ask for. -/
structure Negotiable (g k : Graph) : Prop where
  network : SameNetwork g k
  aligned : k.Aligned
  orders : ∀ id, k.Unwritten id → k.order id = g.order id
  answerable : k.Answerable

theorem Plans.negotiable (plans : Plans settings g k) : Negotiable g k :=
  ⟨plans.network, plans.aligned, plans.orders, plans.answerable⟩

/-- What a lowering leaves of a graph. It asks for no more than any lowering has to ask for. -/
structure Leaves (earlier : Settings) (g h : Graph) : Prop where
  formed : h.WellFormed
  built : h.undecided = g.undecided
  orders : ∀ id, g.Unwritten id → h.order id = g.order id
  grown : g.requirement ≤ h.requirement
  bounded : ∀ {k : Graph} {r : TensorId → Requirement}, Negotiable g k → g.requirement ≤ r →
    (∀ site, k.Hosts site → site.MetBy r) → h.requirement ≤ r
  scales : earlier.propagateScales = true ∨ h.scale = g.scale

/-- What it leaves once the orders are carried through. -/
structure LeavesAligned (earlier : Settings) (g h : Graph) : Prop extends Leaves earlier g h where
  aligned : h.Aligned

namespace Leaves

theorem refl (formed : g.WellFormed) : Leaves earlier g g :=
  ⟨formed, rfl, fun _ _ => rfl, le_rfl, fun _ above _ => above, .inr rfl⟩

variable (leaves : Leaves earlier g h)

include leaves

theorem network : SameNetwork g h := .of_undecided_eq leaves.built.symm

theorem negotiable_iff : Negotiable h k ↔ Negotiable g k := by
  have orders (network : SameNetwork g k) :
      (∀ id, k.Unwritten id → k.order id = h.order id) ↔
        ∀ id, k.Unwritten id → k.order id = g.order id :=
    forall₂_congr fun id unwritten => by rw [leaves.orders id (network.symm.unwritten unwritten)]
  constructor
  · intro negotiable
    have network := leaves.network.trans negotiable.network
    exact ⟨network, negotiable.aligned, (orders network).mp negotiable.orders,
      negotiable.answerable⟩
  · intro negotiable
    have network := negotiable.network
    exact ⟨leaves.network.symm.trans network, negotiable.aligned,
      (orders network).mpr negotiable.orders, negotiable.answerable⟩

/-- A step that asks for nothing. -/
theorem of_requirement_eq (formed : k.WellFormed) (built : k.undecided = h.undecided)
    (orders : ∀ id, h.Unwritten id → k.order id = h.order id)
    (requirement : k.requirement = h.requirement)
    (scales : earlier.propagateScales = true ∨ k.scale = h.scale) : Leaves earlier g k where
  formed := formed
  built := built.trans leaves.built
  orders id unwritten :=
    (orders id (leaves.network.unwritten unwritten)).trans (leaves.orders id unwritten)
  grown := requirement ▸ leaves.grown
  bounded := requirement ▸ leaves.bounded
  scales := scales.elim .inl fun same => leaves.scales.imp_right same.trans

theorem of_planned_eq (formed : k.WellFormed) (same : k.planned = h.planned)
    (scales : earlier.propagateScales = true ∨ k.scale = h.scale) : Leaves earlier g k :=
  leaves.of_requirement_eq formed (undecided_eq_of_planned_eq same)
    (fun id _ => congrFun (order_of_planned_eq same) id) (requirement_of_planned_eq same) scales

/-- What serves the stages in some lowering serves them where the orders are carried through. -/
theorem solves (aligned : h.Aligned) (negotiable : Negotiable g k) {r : TensorId → Requirement}
    (above : g.requirement ≤ r) (met : ∀ site, k.Hosts site → site.MetBy r) :
    h.Answerable ∧ h.Solves r := by
  have further := leaves.negotiable_iff.mpr negotiable
  have orders : k.order = h.order := by
    refine aligned.order_eq further.aligned further.network leaves.formed.wired ?_
    exact fun id unwritten => further.orders id (further.network.unwritten unwritten)
  exact ⟨further.answerable.of_sameNetwork further.network.symm,
    leaves.bounded negotiable above met, (further.network.metBy_iff orders).mp met⟩

end Leaves

/-! ### What each pass leaves -/

theorem leaves_scale (propagates : earlier.propagateScales = true)
    (inputScales : TensorMap Float32) :
    Keeps (Leaves earlier g) (Scale.propagate inputScales) := by
  intro h leaves
  have scaled := (wellFormed_scale inputScales h leaves.formed).and
    (planned_scale h.planned inputScales h rfl)
  exact scaled.mono (fun _ _ reached => leaves.of_planned_eq reached.1 reached.2 (.inl propagates))
    fun _ _ reached => leaves.of_planned_eq reached.1 reached.2 (.inl propagates)

theorem leaves_order (leaves : Leaves earlier g h) :
    AxisOrder.propagate.Ensures h (fun _ => LeavesAligned earlier g) fun _ => Leaves earlier g := by
  have order := (((AxisOrder.propagate_ensures leaves.formed).and
    (AxisOrder.requirement_propagate _ _ rfl)).and (keeps_scale_order _ rfl)).and
      (keeps_order_unwritten h _ ⟨rfl, fun _ _ => rfl⟩)
  refine order.mono ?_ ?_
  · rintro _ after ⟨⟨⟨⟨formed, built, aligned⟩, requirement⟩, scale⟩, -, orders⟩
    exact ⟨leaves.of_requirement_eq formed built orders requirement (.inr scale), aligned⟩
  · rintro _ after ⟨⟨⟨⟨formed, built, -⟩, requirement⟩, scale⟩, -, orders⟩
    exact leaves.of_requirement_eq formed built orders requirement (.inr scale)

/-- Negotiation goes no further than it has to, and may go anywhere if there is nothing to reach. -/
theorem leaves_negotiate : Keeps (LeavesAligned earlier g) Negotiation.negotiate := by
  rintro h ⟨leaves, aligned⟩
  have raised {after : Graph} (formed : after.WellFormed) {r : TensorId → Requirement}
      (graph : after = h.require r) (grown : h.requirement ≤ after.requirement)
      (bounded : ∀ {r'}, h.Answerable → h.Solves r' → after.requirement ≤ r') :
      LeavesAligned earlier g after := by
    subst graph
    refine ⟨⟨formed, (undecided_require h r).trans leaves.built, ?_, leaves.grown.trans grown,
      ?_, ?_⟩, aligned.require⟩
    · rw [order_require]
      exact leaves.orders
    · intro k r' negotiable above met
      obtain ⟨answerable, solves⟩ := leaves.solves aligned negotiable above met
      exact bounded answerable solves
    · rw [scale_require]
      exact leaves.scales
  have negotiate := ((Negotiation.negotiate_ensures leaves.formed aligned).and
    Negotiation.negotiate_grows).and (wellFormed_negotiate h leaves.formed)
  refine negotiate.mono ?_ ?_
  · rintro _ after ⟨⟨⟨r, rfl, -, least, -, -⟩, -⟩, formed⟩
    have asked := requirement_require least
    exact raised formed rfl (asked.symm ▸ least.1.grown) fun _ solves => asked.symm ▸ least.2 solves
  · rintro _ after ⟨⟨⟨-, unsolved⟩, _, r, rfl, asked, grown, -⟩, formed⟩
    exact raised formed rfl (asked.symm ▸ grown) fun answerable solves =>
      absurd ⟨answerable, _, solves⟩ unsolved

/-- The passes after negotiation carry the plan out. -/
theorem leaves_planned {work : Attempt Graph Nat} (formed : Keeps WellFormed work)
    (planned : ∀ plan, Keeps (fun h => h.planned = plan) work)
    (scale : ∀ s, Keeps (fun h => h.scale = s) work) :
    Keeps (LeavesAligned earlier g) work := by
  rintro h ⟨leaves, aligned⟩
  have kept {after : Graph} (reached : (after.WellFormed ∧ after.planned = h.planned) ∧
      after.scale = h.scale) : LeavesAligned earlier g after := by
    obtain ⟨⟨formed, same⟩, scale⟩ := reached
    exact ⟨leaves.of_planned_eq formed same (.inr scale), aligned.of_planned_eq same⟩
  have all := ((formed h leaves.formed).and (planned h.planned h rfl)).and (scale h.scale h rfl)
  exact all.mono (fun _ _ => kept) fun _ _ => kept

theorem leaves_decisions {w : Workspace} (leaves : Leaves earlier g w.graph) (maxRounds : Nat) :
    (Pipeline.run (Pipeline.decisions maxRounds)).Ensures w
      (fun _ after => Leaves earlier g after.graph) fun _ after => Leaves earlier g after.graph := by
  have negotiate : Keeps (LeavesAligned earlier g) Negotiation.negotiate := leaves_negotiate
  have batch : Keeps (LeavesAligned earlier g) Batching.determine :=
    leaves_planned wellFormed_batch planned_batch fun _ => keeps_scale_batch
  have finalize : Keeps (LeavesAligned earlier g) Layout.finalize :=
    leaves_planned wellFormed_finalize planned_finalize fun _ => keeps_scale_finalize
  have closing := Pipeline.keeps_closing (Pass.keeps_updating batch _)
    (Pass.keeps_updating finalize _) (Pass.keeps_checking _ _) Pass.keeps_serialize
  have rounds := Pipeline.keeps_rounds (Pass.keeps_updating negotiate _) maxRounds
  rw [Pipeline.ensures_decisions]
  refine (leaves_order leaves).mono (fun _ ordered reached => ?_) fun _ _ => id
  refine (rounds { w with graph := ordered } reached).mono ?_ fun _ _ stopped => stopped.toLeaves
  exact fun _ after settled => (closing after settled).mono (fun _ _ ended => ended.toLeaves)
    fun _ _ stopped => stopped.toLeaves

/-- A lowering leaves this behind, no matter how it ends. -/
theorem WellFormed.leaves (formed : g.WellFormed) (earlier : Settings) :
    Leaves earlier g (Attempt.state (compile earlier) g) := by
  have start : Leaves earlier g g := .refl formed
  refine ensures_iff_state.mp (ensures_compile_of (fun _ _ => start) ?_ ?_)
  · exact fun _ _ => leaves_decisions (w := .ofGraph g) start earlier.maxRounds
  · intro _ scales
    refine (leaves_scale scales earlier.inputScales g start).mono ?_ fun _ _ => id
    exact fun _ scaled reached =>
      leaves_decisions (w := .ofGraph scaled) reached earlier.maxRounds

/-! ### Lowering again -/

namespace Leaves

variable (leaves : Leaves earlier g h)

include leaves

theorem scalesTo_iff (formed : k.WellFormed) (complete : k.Complete)
    (nonzero : ∀ id, ¬givenScale settings.inputScales id == 0)
    (scales : settings.propagateScales = true ∨ earlier.propagateScales = false) :
    ScalesTo settings h k ↔ ScalesTo settings g k := by
  unfold ScalesTo
  cases propagates : settings.propagateScales with
  | true =>
    simp only [if_true]
    exact ⟨fun carries => carries.restart formed.wired complete nonzero _,
      fun carries => carries.restart formed.wired complete nonzero _⟩
  | false =>
    have stays : earlier.propagateScales = false := by simpa [propagates] using scales
    have same : h.scale = g.scale := by simpa [stays] using leaves.scales
    rw [same]

/-- The graph and what a lowering has left of it are lowered to the same. -/
theorem lowersTo_iff (rounds : 2 ≤ settings.maxRounds)
    (nonzero : ∀ id, ¬givenScale settings.inputScales id == 0)
    (scales : settings.propagateScales = true ∨ earlier.propagateScales = false) :
    LowersTo settings h k ↔ LowersTo settings g k := by
  have solutions (negotiable : Negotiable g k) :
      {r | h.requirement ≤ r ∧ ∀ site, k.Hosts site → site.MetBy r} =
        {r | g.requirement ≤ r ∧ ∀ site, k.Hosts site → site.MetBy r} :=
    Set.ext fun r => ⟨fun solves => ⟨leaves.grown.trans solves.1, solves.2⟩,
      fun solves => ⟨leaves.bounded negotiable solves.1 solves.2, solves.2⟩⟩
  constructor
  · intro lowers
    have negotiable := leaves.negotiable_iff.mp lowers.negotiable
    have scale := leaves.scalesTo_iff lowers.formed lowers.complete nonzero scales
    exact lowers.transfer negotiable.network negotiable.orders (scale.mp lowers.scales)
      (solutions negotiable).symm (.inl rounds)
  · intro lowers
    have negotiable := leaves.negotiable_iff.mpr lowers.negotiable
    have scale := leaves.scalesTo_iff lowers.formed lowers.complete nonzero scales
    exact lowers.transfer negotiable.network negotiable.orders (scale.mpr lowers.scales)
      (solutions lowers.negotiable) (.inl rounds)

end Leaves

/-- What a graph is lowered to is one graph, once the stages keep their handles. -/
theorem LowersTo.eq_of_undecided_eq (lowers : LowersTo settings g h) (lowers' : LowersTo settings g k)
    (same : k.undecided = h.undecided) : k = h := by
  have rearranged := lowers.rearranged lowers'
  have tensors : k.tensors = h.tensors :=
    (decisions_eq_iff same).mp rearranged.decisions_eq.symm
  have stages : k.stages = h.stages := by
    rw [← lowers.toFinished.stages_eq lowers.formed.wired,
      ← lowers'.toFinished.stages_eq lowers'.formed.wired, same, withMode_congr rearranged.tensors]
  have name : k.name = h.name := (congrArg Graph.name same :)
  cases k
  cases h
  simp only at tensors stages name
  rw [tensors, stages, name]

/-- Lowering a graph once, however that ends, does not spoil lowering it again: it is lowered or
refused as if it came straight from building, and comes to the same. -/
theorem Reachable.recompile (reachable : g.Reachable) (earlier : Settings)
    (rounds : 2 ≤ settings.maxRounds)
    (numbers : ∀ id scale, settings.inputScales.get? id = some scale →
      scale.isNaN = false ∧ ¬scale == 0)
    (scales : settings.propagateScales = true ∨ earlier.propagateScales = false) :
    ((∃ compiled after, compile settings (Attempt.state (compile earlier) g) = .ok compiled after) ↔
      ∃ compiled after, compile settings g = .ok compiled after) ∧
    ∀ {compiled compiled' : Compiled} {after after' : Graph},
      compile settings g = .ok compiled after →
      compile settings (Attempt.state (compile earlier) g) = .ok compiled' after' →
        after' = after ∧ compiled'.image = compiled.image ∧ compiled'.records = compiled.records := by
  have formed := reachable.wellFormed
  have leaves := formed.leaves earlier
  have numeric := givenScale_beq_self fun id scale given => (numbers id scale given).1
  have nonzero := givenScale_ne_zero fun id scale given => (numbers id scale given).2
  have again {k : Graph} := leaves.lowersTo_iff (k := k) rounds nonzero scales
  refine ⟨?_, ?_⟩
  · rw [compile_eq_ok_iff leaves.formed numeric, compile_eq_ok_iff formed numeric]
    exact exists_congr fun _ => again
  · intro compiled compiled' after after' ran ran'
    obtain ⟨built, lowers, written⟩ := (compile_lowersTo formed numeric).of_ok ran
    obtain ⟨built', lowers', written'⟩ := (compile_lowersTo leaves.formed numeric).of_ok ran'
    have same : after'.undecided = after.undecided := (built'.trans leaves.built).trans built.symm
    obtain rfl := lowers.eq_of_undecided_eq (again.mp lowers') same
    rw [written, Except.ok.injEq, Prod.mk.injEq] at written'
    exact ⟨rfl, written'.1.symm, written'.2.symm⟩

/-- One round is too few for the spread row. What is left of it can be lowered all the same. -/
theorem recompile_spreadRow :
    ∃ left compiled after,
      compile { maxRounds := 1 } spreadRow =
        .error (.negotiation (.notConverged ["negotiate-strides"] 1)) left ∧
      compile {} left = .ok compiled after ∧ compiled.records = 1 := by
  have stopped : (match compile { maxRounds := 1 } spreadRow with
      | .ok _ _ => none
      | .error error _ => some error) =
        some (.negotiation (.notConverged ["negotiate-strides"] 1)) := by
    decide +kernel
  have built : spreadRow.Reachable := reachable_widenedRow _
  obtain ⟨iff, same⟩ := @Reachable.recompile spreadRow {} built { maxRounds := 1 } (by decide)
    (fun _ _ given => by cases given) (.inr rfl)
  obtain ⟨compiled, after, ran, -, one⟩ := compile_spreadRow
  obtain ⟨compiled', after', ran'⟩ := iff.mpr ⟨compiled, after, ran⟩
  have count := (same ran ran').2.2.trans one
  cases outcome : compile { maxRounds := 1 } spreadRow with
  | ok compiled left => simp [outcome] at stopped
  | error error left =>
    simp only [outcome, Option.some.injEq] at stopped
    rw [Attempt.state, outcome] at ran'
    exact ⟨left, compiled', after', congrArg (EStateM.Result.error · left) stopped, ran', count⟩

end Graph

end TensorLowering
