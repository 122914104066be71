import Mathlib.Logic.Relation
import TensorLowering.Proofs.Constraints
import TensorLowering.Proofs.Reachable

/-!
What holds of a graph for ever, whatever is done to it: a position of a tensor that asks for
something goes on to ask for that.
-/

namespace TensorLowering

open Attempt

namespace Graph

variable {g h : Graph}

/-- One operation on a graph. It adds a tensor, marks one or chooses its order, puts in a stage of any
kind, or runs a pass, whether that succeeds or fails. -/
inductive Becomes (g : Graph) : Graph → Prop
  | addTensor (name : String) (type : ElementType) (extents : AxisMap) (role : Role) :
      Becomes g (g.addTensor name type extents role).2
  | markOutput {after : Graph} {id : TensorId} : g.markOutput id = .ok after → Becomes g after
  | setInputOrder {after : Graph} {id : TensorId} {order : AxisOrder} :
      g.setInputOrder id order = .ok after → Becomes g after
  | insertStage {after : Graph} {stage : Stage} {id : StageId} :
      g.insertStage stage = .ok (id, after) → Becomes g after
  | pass {w : Workspace} {settings : Settings} {pass : Pass Workspace} : w.graph = g →
      pass ∈ Pass.all settings → Becomes g (Attempt.state pass.run w).graph

/-- Every reachable graph comes from an empty one by such operations. -/
theorem Reachable.exists_run (reachable : g.Reachable) :
    ∃ name, Relation.ReflTransGen Becomes (.empty name) g := by
  induction reachable with
  | empty name => exact ⟨name, .refl⟩
  | addTensor name type extents _ _ ih => exact ih.imp fun _ run => run.tail (.addTensor ..)
  | markOutput _ marked ih => exact ih.imp fun _ run => run.tail (.markOutput marked)
  | setInputOrder _ _ chosen ih => exact ih.imp fun _ run => run.tail (.setInputOrder chosen)
  | addCopy _ inserted ih => exact ih.imp fun _ run => run.tail (.insertStage inserted)
  | addPower _ inserted ih => exact ih.imp fun _ run => run.tail (.insertStage inserted)
  | addExpand _ inserted ih => exact ih.imp fun _ run => run.tail (.insertStage inserted)
  | addDetached _ _ _ inserted ih _ => exact ih.imp fun _ run => run.tail (.insertStage inserted)
  | pass _ member ih => exact ih.imp fun _ run => run.tail (.pass rfl member)

/-- Requirements grow from a graph to another if they do at each tensor of the first. -/
theorem requirement_le_of_tensors (grows : ∀ (id : TensorId) tensor,
      g.tensors[id.index]? = some tensor → ∃ after, h.tensors[id.index]? = some after ∧
        tensor.requirement ≤ after.requirement) : g.requirement ≤ h.requirement := by
  intro id
  cases atId : g.tensors[id.index]? with
  | none => simp [requirement, atId]
  | some tensor =>
    obtain ⟨after, atId', above⟩ := grows id tensor atId
    rwa [requirement_of_getElem? atId, requirement_of_getElem? atId']

theorem requirement_le_modifyTensor {id : TensorId} {change : Tensor → Tensor}
    (grows : ∀ tensor, g.tensors[id.index]? = some tensor →
      tensor.requirement ≤ (change tensor).requirement) :
    g.requirement ≤ (g.modifyTensor id change).requirement := by
  refine requirement_le_of_tensors fun other tensor atOther => ?_
  rw [tensors_modifyTensor, atOther]
  by_cases here : other = id
  · exact ⟨change tensor, by simp [here], grows tensor (here ▸ atOther)⟩
  · exact ⟨tensor, by simp [here], le_rfl⟩

theorem requirement_le_of_mem {settings : Settings} {pass : Pass Workspace}
    (member : pass ∈ Pass.all settings) (start : Graph) :
    Keeps (fun w : Workspace => start.requirement ≤ w.graph.requirement) pass.run := by
  refine @Pass.keeps_of_mem (fun g => start.requirement ≤ g.requirement) settings ?_ ?_ ?_ ?_ ?_
    pass member
  · exact Scale.propagate_keeps (fun _ _ _ above =>
      above.trans (requirement_le_modifyTensor fun _ _ => le_rfl)) _
  · exact AxisOrder.propagate_keeps fun _ _ above _ _ =>
      above.trans (requirement_le_modifyTensor fun _ _ => le_rfl)
  · refine Negotiation.negotiate_keeps fun g id tensor demand merged above atId _ joined => ?_
    refine above.trans (requirement_le_modifyTensor fun tensor' atId' => ?_)
    obtain rfl := Option.some.inj (atId.symm.trans atId')
    exact (Requirement.merge_ok joined).1.1.1
  · exact Batching.determine_keeps fun _ _ _ above =>
      above.trans (requirement_le_modifyTensor fun _ _ => le_rfl)
  · exact Layout.finalize_keeps
      (fun _ _ _ _ above _ _ => above.trans (requirement_le_modifyTensor fun _ _ => le_rfl))
      fun _ _ _ above => above

theorem Becomes.requirement_le (becomes : g.Becomes h) : g.requirement ≤ h.requirement := by
  cases becomes with
  | addTensor name type extents role =>
    refine requirement_le_of_tensors fun id tensor atId => ⟨tensor, ?_, le_rfl⟩
    have known := (Array.getElem?_eq_some_iff.mp atId).1
    simpa [Graph.addTensor, Array.getElem?_push, Nat.ne_of_lt known] using atId
  | markOutput marked =>
    obtain ⟨_, -, -, rfl⟩ := markOutput_eq_ok_iff.mp marked
    exact requirement_le_modifyTensor fun _ _ => le_rfl
  | setInputOrder chosen =>
    obtain ⟨_, -, -, -, rfl⟩ := setInputOrder_eq_ok_iff.mp chosen
    exact requirement_le_modifyTensor fun _ _ => le_rfl
  | insertStage inserted =>
    obtain ⟨-, -, rfl⟩ := insertStage_eq_ok_iff.mp inserted
    refine requirement_le_of_tensors fun id tensor atId => ?_
    rw [tensors_connect, atId]
    exact ⟨_, rfl, le_rfl⟩
  | @pass w settings pass same member =>
    subst same
    exact keeps_iff_state.mp (requirement_le_of_mem member w.graph) w le_rfl

theorem requirement_le_of_run (run : Relation.ReflTransGen Becomes g h) :
    g.requirement ≤ h.requirement := by
  induction run with
  | refl => exact le_rfl
  | tail _ last ih => exact ih.trans last.requirement_le

end Graph

end TensorLowering
