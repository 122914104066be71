import TensorLowering.Proofs.Determinacy

/-!
Carrying the orders through gives every tensor the order of the tensor at which its chain of
producers starts. Each stage writes one tensor, so what is counted are the tensors that change.
-/

namespace TensorLowering

open Attempt TensorLowering.Graph

namespace Graph

variable {g now : Graph} {head id : TensorId}

/-- Going back from a tensor through the stages that write it and what they read, one comes to this
tensor, which no stage writes. -/
inductive StemsFrom (g : Graph) (head : TensorId) : TensorId → Prop
  | head {tensor : Tensor} : g.tensors[head.index]? = some tensor → tensor.producer = none →
      StemsFrom g head head
  | through {site : Site} : g.Hosts site → StemsFrom g head site.inputId →
      StemsFrom g head site.outputId

/-- The graph with other orders of its tensors. -/
def reorder (g : Graph) (orders : TensorId → AxisOrder) : Graph :=
  g.mapTensors fun id tensor => { tensor with order := orders id }

theorem Wired.exists_stemsFrom (wired : g.Wired) (known : id.index < g.tensors.size) :
    ∃ head, g.StemsFrom head id := by
  induction id using wired.induction_upstream with | step id upstream => ?_
  have atId := Array.getElem?_eq_getElem known
  cases written : g.tensors[id.index].producer with
  | none => exact ⟨id, .head atId written⟩
  | some writer =>
    obtain ⟨site, hosts, -, rfl⟩ := wired.site_of_producer_eq atId written
    obtain ⟨head, stems⟩ := upstream site hosts rfl (Array.getElem?_eq_some_iff.mp hosts.input).1
    exact ⟨head, .through hosts stems⟩

theorem Wired.unwritten_of_producer_eq_none (wired : g.Wired) {tensor : Tensor}
    (atId : g.tensors[id.index]? = some tensor) (unwritten : tensor.producer = none) :
    g.Unwritten id := by
  rintro site hosts rfl
  obtain rfl := Option.some.inj (atId.symm.trans hosts.output)
  simp [hosts.producer_eq wired] at unwritten

theorem tensors_reorder (g : Graph) (orders : TensorId → AxisOrder) (id : TensorId) :
    (g.reorder orders).tensors[id.index]? =
      (g.tensors[id.index]?).map fun tensor => { tensor with order := orders id } :=
  tensors_mapTensors g _ id

@[simp] theorem undecided_reorder (g : Graph) (orders : TensorId → AxisOrder) :
    (g.reorder orders).undecided = g.undecided :=
  undecided_mapTensors fun _ _ => rfl

theorem reorder_order_self (g : Graph) : g.reorder g.order = g :=
  mapTensors_eq_self fun id tensor atId => by rw [order_of_getElem? atId]

/-- The orders of tensors that the graph lacks do not matter. -/
theorem reorder_order (g : Graph) (orders : TensorId → AxisOrder) :
    g.reorder (g.reorder orders).order = g.reorder orders := by
  have twice : (g.reorder orders).reorder (g.reorder orders).order =
      g.reorder (g.reorder orders).order := by
    simp only [reorder, mapTensors, mk.injEq, true_and, and_true]
    ext i bound : 1 <;> simp
  rw [← twice, reorder_order_self]

theorem modifyTensor_reorder (g : Graph) (orders : TensorId → AxisOrder) (id : TensorId)
    (order : AxisOrder) :
    ((g.reorder orders).modifyTensor id fun tensor => { tensor with order := order }) =
      g.reorder (Function.update orders id order) :=
  modifyTensor_mapTensors (fun tensor => by simp) fun other tensor elsewhere => by simp [elsewhere]

def Site.reorder (site : Site) (orders : TensorId → AxisOrder) : Site :=
  site.view (fun id tensor => { tensor with order := orders id }) fun stage => stage

theorem hosts_reorder_iff {orders : TensorId → AxisOrder} {site : Site} :
    (g.reorder orders).Hosts site ↔ ∃ before, g.Hosts before ∧ site = before.reorder orders :=
  hosts_mapTensors_iff

theorem Hosts.reorder {site : Site} (hosts : g.Hosts site) (orders : TensorId → AxisOrder) :
    (g.reorder orders).Hosts (site.reorder orders) :=
  hosts_reorder_iff.mpr ⟨site, hosts, rfl⟩

/-- Input and output name the same axes. -/
def Site.SameAxes (site : Site) : Prop :=
  ∀ axis, site.input.extents.has axis ↔ site.output.extents.has axis

/-- In a well-formed graph a stage can hand its order on exactly if both sides have the same
axes. -/
theorem WellFormed.covers_iff_sameAxes (formed : g.WellFormed) {site : Site}
    (hosts : g.Hosts site) :
    site.input.order.covers site.output.extents ↔ site.SameAxes := by
  have shaped := formed.shaped hosts.input
  rw [AxisOrder.covers_iff shaped.nodup, Site.SameAxes]
  exact forall_congr' fun axis => by rw [shaped.axes]

theorem forall_sameAxes_reorder_iff {orders : TensorId → AxisOrder} :
    (∀ site, (g.reorder orders).Hosts site → site.SameAxes) ↔
      ∀ site, g.Hosts site → site.SameAxes := by
  constructor
  · intro all site hosts
    exact all (site.reorder orders) (hosts.reorder orders)
  · intro all site hosts
    obtain ⟨before, hosts', rfl⟩ := hosts_reorder_iff.mp hosts
    exact all before hosts'

/-- What the visited stages have done to the orders: those of some tensors are others now, each of
these is written by one of the stages, and they have been counted. -/
structure Reordered (g : Graph) (visited : List StageId) (count : Nat) (now : Graph)
    (changed : List TensorId) : Prop where
  graph : now = g.reorder now.order
  nodup : changed.Nodup
  tracks : ∀ id, id ∈ changed ↔ now.order id ≠ g.order id
  written : ∀ id ∈ changed, ∃ site, g.Hosts site ∧ site.id ∈ visited ∧ site.outputId = id
  counted : count = changed.length

namespace Reordered

variable {visited : List StageId} {count : Nat} {changed : List TensorId}

theorem undecided_eq (reordered : Reordered g visited count now changed) :
    now.undecided = g.undecided := by
  rw [reordered.graph, undecided_reorder]

theorem more (reordered : Reordered g visited count now changed) (id : StageId) :
    Reordered g (visited ++ [id]) count now changed where
  graph := reordered.graph
  nodup := reordered.nodup
  tracks := reordered.tracks
  written other member := by
    obtain ⟨site, hosts, old, writes⟩ := reordered.written other member
    exact ⟨site, hosts, List.mem_append_left _ old, writes⟩
  counted := reordered.counted

/-- A tensor that a stage is about to write still has its first order. -/
theorem notMem_outputId (reordered : Reordered g visited count now changed) (wired : g.Wired)
    {site : Site} (hosts : g.Hosts site) (fresh : site.id ∉ visited) : site.outputId ∉ changed := by
  intro member
  obtain ⟨other, hosts', old, writes⟩ := reordered.written _ member
  exact fresh (hosts'.id_eq_of_outputId_eq hosts wired writes ▸ old)

theorem order_eq_of_unwritten (reordered : Reordered g visited count now changed)
    (unwritten : g.Unwritten id) : now.order id = g.order id := by
  by_contra differs
  obtain ⟨site, hosts, -, writes⟩ := reordered.written id ((reordered.tracks id).mpr differs)
  exact unwritten site hosts writes

theorem write (reordered : Reordered g visited count now changed) (wired : g.Wired) {site : Site}
    (hosts : now.Hosts site) (fresh : site.id ∉ visited)
    (differs : site.output.order ≠ site.input.order) :
    Reordered g (visited ++ [site.id]) (count + 1)
      (now.modifyTensor site.outputId fun tensor => { tensor with order := site.input.order })
      (site.outputId :: changed) := by
  have hosts' := hosts
  rw [reordered.graph] at hosts'
  obtain ⟨before, first, same⟩ := hosts_reorder_iff.mp hosts'
  have id : before.id = site.id := (congrArg Site.id same).symm
  have outputId : before.outputId = site.outputId := (congrArg Site.outputId same).symm
  have untouched := reordered.notMem_outputId wired first (id ▸ fresh)
  rw [outputId] at untouched
  have written : (now.modifyTensor site.outputId fun tensor =>
      { tensor with order := site.input.order }).order site.outputId = site.input.order := by
    simp [order, tensors_modifyTensor, hosts.output]
  constructor
  case graph =>
    conv_lhs => rw [reordered.graph]
    conv_rhs => rw [reordered.graph]
    rw [modifyTensor_reorder, reorder_order]
  case nodup => exact List.nodup_cons.mpr ⟨untouched, reordered.nodup⟩
  case tracks =>
    intro other
    by_cases here : other = site.outputId
    · subst here
      have kept : now.order site.outputId = g.order site.outputId := by
        by_contra moved
        exact untouched ((reordered.tracks _).mpr moved)
      rw [written, ← kept, order_of_getElem? hosts.output]
      exact iff_of_true (List.mem_cons_self ..) (Ne.symm differs)
    · rw [order_modifyTensor_of_ne here, ← reordered.tracks other]
      simp [here]
  case written =>
    intro other member
    rcases List.mem_cons.mp member with rfl | old
    · exact ⟨before, first, by simp [id], outputId⟩
    · exact (reordered.more site.id).written other old
  case counted => simp [reordered.counted]

end Reordered

/-- Along a chain of producers aligned stages hand on one order. -/
theorem StemsFrom.order_eq (stems : g.StemsFrom head id) {orders : TensorId → AxisOrder}
    (aligned : (g.reorder orders).Aligned)
    (given : ∀ {id tensor}, g.tensors[id.index]? = some tensor → tensor.producer = none →
      (g.reorder orders).order id = g.order id) :
    (g.reorder orders).order id = g.order head := by
  induction stems with
  | head atHead unwritten => exact given atHead unwritten
  | @through site hosts _ ih =>
    have hosts' := hosts.reorder orders
    calc (g.reorder orders).order site.outputId
        = orders site.outputId := order_of_getElem? hosts'.output
      _ = orders site.inputId := aligned _ hosts'
      _ = (g.reorder orders).order site.inputId := (order_of_getElem? hosts'.input).symm
      _ = g.order head := ih

end Graph

namespace AxisOrder

variable {g : Graph}

theorem propagate_reorders (wired : g.Wired) :
    propagate.Ensures g
      (fun count after => ∃ changed, Reordered g g.stageIds count after changed)
      fun _ _ => True := by
  obtain ⟨order, scheduled, ordered⟩ := wired.exists_schedule
  refine .ask_bind scheduled ?_
  refine (Ensures.sweep (fun visited count now => ∃ changed, Reordered g visited count now changed)
    ⟨[], ?_⟩ ?_).mono ?_ fun _ _ => id
  · exact ⟨(reorder_order_self g).symm, .nil, by simp, by simp, rfl⟩
  · rintro visited id later count now split ⟨changed, reordered⟩
    have same := reordered.undecided_eq
    have member := ((ordered.of_undecided_eq same).mem_iff id).mp (by simp [split])
    obtain ⟨site, hosts, rfl⟩ := (wired.of_undecided_eq same).site_of_mem member
    refine (propagateThrough_ensures hosts).mono ?_ fun _ _ _ => trivial
    intro here after handed
    rcases handed with ⟨-, rfl, rfl⟩ | ⟨-, differs, rfl, rfl⟩
    · exact ⟨changed, reordered.more site.id⟩
    · exact ⟨_, reordered.write wired hosts (ordered.apart split).1 differs⟩
  · rintro count after ⟨changed, reordered⟩
    refine ⟨changed, reordered.graph, reordered.nodup, reordered.tracks, ?_, reordered.counted⟩
    intro id member
    obtain ⟨site, hosts, -, writes⟩ := reordered.written id member
    exact ⟨site, hosts, hosts.mem_stageIds, writes⟩

/-- Where the orders have been carried through there is nothing left to carry. -/
theorem propagate_of_aligned (formed : g.WellFormed) (aligned : g.Aligned) :
    propagate g = .ok 0 g := by
  obtain ⟨order, scheduled, ordered⟩ := formed.wired.exists_schedule
  have still : propagate.Ensures g (fun count after => count = 0 ∧ after = g) fun _ _ => False := by
    refine .ask_bind scheduled (Ensures.sweep (fun _ count now => count = 0 ∧ now = g) ⟨rfl, rfl⟩ ?_)
    rintro visited id later count now split ⟨rfl, rfl⟩
    obtain ⟨site, hosts, rfl⟩ := formed.wired.site_of_mem ((ordered.mem_iff id).mp (by simp [split]))
    refine (propagateThrough_ensures hosts).mono ?_ ?_
    · rintro here after (⟨-, rfl, rfl⟩ | ⟨-, differs, -, -⟩)
      · exact ⟨rfl, rfl⟩
      · exact absurd (aligned site hosts) differs
    · rintro error after ⟨uncovered, -, -⟩
      have shaped := formed.shaped hosts.output
      rw [← aligned site hosts] at uncovered
      exact uncovered ((covers_iff shaped.nodup).mpr shaped.axes)
  cases outcome : propagate g with
  | ok count after =>
    obtain ⟨rfl, rfl⟩ := still.of_ok outcome
    rfl
  | error error after => exact (still.of_error outcome).elim

/-- Carrying the orders through fails only where a stage has other axes on its two sides. -/
theorem propagate_exact (formed : g.WellFormed) :
    propagate.Ensures g
      (fun count after => (∀ site, g.Hosts site → site.SameAxes) ∧ after.WellFormed ∧
        after.Aligned ∧ ∃ changed, Reordered g g.stageIds count after changed)
      fun _ _ => ¬∀ site, g.Hosts site → site.SameAxes := by
  have reorders : Keeps (fun now => ∃ orders, now = g.reorder orders) propagate := by
    refine propagate_keeps ?_
    rintro now site ⟨orders, rfl⟩ - -
    exact ⟨_, modifyTensor_reorder g orders site.outputId site.input.order⟩
  refine (((propagate_ensures formed).and (propagate_reorders formed.wired)).and
    (reorders g ⟨g.order, (reorder_order_self g).symm⟩)).mono ?_ ?_
  · rintro count after ⟨⟨⟨formed', -, aligned⟩, reordered⟩, orders, rfl⟩
    have same : ∀ site, (g.reorder orders).Hosts site → site.SameAxes := by
      intro site hosts
      have shaped := formed'.shaped hosts.output
      rw [← formed'.covers_iff_sameAxes hosts, ← aligned site hosts]
      exact (covers_iff shaped.nodup).mpr shaped.axes
    exact ⟨forall_sameAxes_reorder_iff.mp same, formed', aligned, reordered⟩
  · rintro error after ⟨⟨⟨formed', -, site, hosts, uncovered, -⟩, -⟩, orders, rfl⟩ same
    exact uncovered ((formed'.covers_iff_sameAxes hosts).mpr
      (forall_sameAxes_reorder_iff.mpr same site hosts))

end AxisOrder

/-- Carrying the orders through succeeds exactly if every stage has the same axes on both sides.
Then every tensor is in the order of the tensor at which its chain of producers starts, one that no
stage writes is in the order it had, and nothing else has changed. What is reported is the number of
tensors that are in another order, and a second run finds nothing to change. -/
theorem Pass.propagateDataOrder_exact {w : Workspace} (reachable : w.graph.Reachable) :
    ((∃ report after, propagateDataOrder.run w = .ok report after) ↔
      ∀ site, w.graph.Hosts site → site.SameAxes) ∧
    ∀ {report : PassReport} {after : Workspace}, propagateDataOrder.run w = .ok report after →
      (∀ id : TensorId, id.index < w.graph.tensors.size → ∃ head, w.graph.StemsFrom head id) ∧
      (∀ head id, w.graph.StemsFrom head id → after.graph.order id = w.graph.order head) ∧
      (∀ (id : TensorId) (tensor : Tensor), w.graph.tensors[id.index]? = some tensor →
        tensor.producer = none → after.graph.order id = tensor.order) ∧
      after = { w with graph := w.graph.reorder after.graph.order } ∧
      report.updated = (w.graph.tensorIds.filter fun id =>
        after.graph.order id ≠ w.graph.order id).length ∧
      ∃ report', propagateDataOrder.run after = .ok report' after ∧ report'.changed = false := by
  have formed := reachable.wellFormed
  have ran : propagateDataOrder.run.Ensures w
      (fun report after => ∃ count g, report = .ofUpdates count ∧ after = { w with graph := g } ∧
        (∀ site, w.graph.Hosts site → site.SameAxes) ∧ g.WellFormed ∧ g.Aligned ∧
          ∃ changed, Reordered w.graph w.graph.stageIds count g changed)
      fun _ _ => ¬∀ site, w.graph.Hosts site → site.SameAxes := by
    rw [propagateDataOrder, ensures_updating]
    exact (AxisOrder.propagate_exact formed).mono
      (fun count g found => ⟨count, g, rfl, rfl, found⟩) fun _ _ => id
  refine ⟨⟨fun found => ?_, fun same => ?_⟩, fun {report after} succeeded => ?_⟩
  · obtain ⟨report, after, succeeded⟩ := found
    obtain ⟨-, -, -, -, same, -⟩ := ran.of_ok succeeded
    exact same
  · cases outcome : propagateDataOrder.run w with
    | ok report after => exact ⟨report, after, rfl⟩
    | error error after => exact absurd same (ran.of_error outcome)
  · obtain ⟨count, g, rfl, rfl, -, formed', aligned, changed, reordered⟩ := ran.of_ok succeeded
    have unwritten {id : TensorId} {tensor : Tensor}
        (atId : w.graph.tensors[id.index]? = some tensor) (none : tensor.producer = none) :
        g.order id = w.graph.order id :=
      reordered.order_eq_of_unwritten (formed.wired.unwritten_of_producer_eq_none atId none)
    refine ⟨fun id known => formed.wired.exists_stemsFrom known, fun head id stems => ?_,
      fun id tensor atId none => ?_, ?_, ?_, ?_⟩
    · have graph := reordered.graph
      rw [graph] at aligned unwritten ⊢
      exact stems.order_eq aligned unwritten
    · rw [unwritten atId none, order_of_getElem? atId]
    · rw [← reordered.graph]
    · have known (id : TensorId) (moved : g.order id ≠ w.graph.order id) :
          id.index < w.graph.tensors.size := by
        by_contra beyond
        have size := size_tensors_of_undecided_eq reordered.undecided_eq
        exact moved (by simp [order, Array.getElem?_eq_none (Nat.le_of_not_lt beyond),
          Array.getElem?_eq_none (size ▸ Nat.le_of_not_lt beyond)])
      have all : changed.Perm (w.graph.tensorIds.filter fun id => g.order id ≠ w.graph.order id) :=
        (List.perm_ext_iff_of_nodup reordered.nodup (tensorIds_nodup.filter _)).mpr
          fun id => by
            simp only [reordered.tracks, List.mem_filter, decide_eq_true_eq, mem_tensorIds]
            exact ⟨fun moved => ⟨known id moved, moved⟩, And.right⟩
      exact reordered.counted.trans all.length_eq
    · exact ⟨_, updating_eq_ok (AxisOrder.propagate_of_aligned formed' aligned), rfl⟩

namespace Graph

/-- A plane that is given with its height innermost, copied and then made two columns wider. -/
def turnedPlane : Graph where
  name := "plane"
  tensors := #[
    { Tensor.fresh "given" .u8 { w := some 4, h := some 2 } .input with
      order := ⟨[.h, .w]⟩, consumers := [⟨0⟩] },
    { Tensor.fresh "copied" .u8 { w := some 4, h := some 2 } .intermediate with
      producer := some ⟨0⟩, consumers := [⟨1⟩] },
    { Tensor.fresh "wide" .u8 { w := some 6, h := some 2 } .intermediate with
      producer := some ⟨1⟩ }]
  stages := #[
    ⟨"copy", none, [⟨0⟩], [⟨1⟩], .copy {} none⟩,
    ⟨"widen", none, [⟨1⟩], [⟨2⟩], .expand {}⟩]

theorem reachable_turnedPlane : turnedPlane.Reachable := by
  let given := ((empty "plane").addTensor "given" .u8 { w := some 4, h := some 2 } .input).2
  let copied := (given.addTensor "copied" .u8 { w := some 4, h := some 2 } .intermediate).2
  let wide := (copied.addTensor "wide" .u8 { w := some 6, h := some 2 } .intermediate).2
  have tensors : wide.Reachable :=
    (((Reachable.empty "plane").addTensor _ _ _ (by decide)).addTensor _ _ _ (by decide)).addTensor
      _ _ _ (by decide)
  let turned := wide.modifyTensor ⟨0⟩ fun tensor => { tensor with order := ⟨[.h, .w]⟩ }
  have turns : wide.setInputOrder ⟨0⟩ ⟨[.h, .w]⟩ = .ok turned := by
    decide +kernel
  let copy := turned.connect ⟨"copy", none, [⟨0⟩], [⟨1⟩], .copy {} none⟩
  have copies : turned.addCopy "copy" none [⟨0⟩] [⟨1⟩] {} = .ok (⟨0⟩, copy) := by
    decide +kernel
  have widens : copy.addExpand "widen" none [⟨1⟩] [⟨2⟩] {} = .ok (⟨1⟩, turnedPlane) := by
    decide +kernel
  exact ((tensors.setInputOrder (.inl ⟨[.h, .w], by decide⟩) turns).addCopy copies).addExpand widens

end Graph

theorem Pass.propagateDataOrder_turnedPlane :
    ∃ report after, propagateDataOrder.run (.ofGraph turnedPlane) = .ok report after ∧
      report.updated = 2 ∧ turnedPlane.StemsFrom ⟨0⟩ ⟨2⟩ ∧
      after.graph.order ⟨2⟩ = turnedPlane.order ⟨0⟩ ∧
      turnedPlane.order ⟨2⟩ ≠ turnedPlane.order ⟨0⟩ := by
  have reachable : (Workspace.ofGraph turnedPlane).graph.Reachable := reachable_turnedPlane
  have succeeds : (propagateDataOrder.run.result? (.ofGraph turnedPlane)).map (·.1.updated) =
      some 2 := by
    decide +kernel
  obtain ⟨⟨report, after⟩, found, two⟩ := Option.map_eq_some_iff.mp succeeds
  have ran := result?_eq_some_iff.mp found
  obtain ⟨-, orders, -⟩ := (propagateDataOrder_exact reachable).2 ran
  have copies : turnedPlane.Hosts ⟨⟨0⟩, turnedPlane.stages[0], ⟨0⟩, turnedPlane.tensors[0], ⟨1⟩,
      turnedPlane.tensors[1]⟩ := by
    decide +kernel
  have widens : turnedPlane.Hosts ⟨⟨1⟩, turnedPlane.stages[1], ⟨1⟩, turnedPlane.tensors[1], ⟨2⟩,
      turnedPlane.tensors[2]⟩ := by
    decide +kernel
  have stems : turnedPlane.StemsFrom ⟨0⟩ ⟨2⟩ := .through widens (.through copies (.head rfl rfl))
  exact ⟨report, after, ran, two, stems, orders ⟨0⟩ ⟨2⟩ stems, by decide +kernel⟩

end TensorLowering
