import Mathlib.Data.Fintype.Card
import TensorLowering.Proofs.FinalCheck
import TensorLowering.Proofs.Image

namespace TensorLowering

open Attempt TensorLowering.Graph

namespace Image

variable {α β : Type} {cause : LoweringError → Prop}

/-- Whatever was written before, writing fails only for the given cause. -/
def FailsBy (cause : LoweringError → Prop) (write : Attempt Writer α) : Prop :=
  ∀ writer, write.Ensures writer (fun _ _ => True) fun error _ => cause error

namespace FailsBy

theorem pure (result : α) : FailsBy cause (Pure.pure result : Attempt Writer α) :=
  fun _ => trivial

theorem bind {write : Attempt Writer α} {next : α → Attempt Writer β} (here : FailsBy cause write)
    (there : ∀ result, FailsBy cause (next result)) : FailsBy cause (write >>= next) := by
  intro writer
  rw [ensures_bind]
  exact (here writer).mono (fun result after _ => there result after) fun _ _ => id

theorem ask {question : Except LoweringError α} {answer : α} {next : α → Attempt Writer β}
    (answered : question = .ok answer) (there : FailsBy cause (next answer)) :
    FailsBy cause (TensorLowering.ask (fun _ => question) >>= next) :=
  fun writer => .ask_bind answered (there writer)

theorem word (w : UInt32) : FailsBy cause (word w) := fun _ => trivial

theorem float (value : Float32) : FailsBy cause (float value) := word _

theorem count {field : String} {value : Nat}
    (large : UInt32.size ≤ value → cause (.image (.overflow field value))) :
    FailsBy cause (count field value) := by
  intro writer
  unfold Image.count
  rw [ensures_ite, ensures_throw]
  exact ⟨fun _ => word _ writer, fun unfit => large (Nat.le_of_not_lt unfit)⟩

theorem record {write : Attempt Writer α} (here : FailsBy cause write) :
    FailsBy cause (record write) := by
  intro writer
  have wrote := here writer
  unfold Ensures Image.record at *
  cases outcome : write writer <;> simp_all only

theorem sweep {treat : β → Attempt Writer Nat} {items : List β}
    (each : ∀ item ∈ items, FailsBy cause (treat item)) : FailsBy cause (sweep treat items) :=
  fun _ => Ensures.sweep_of_each trivial fun item member now _ => each item member now

end FailsBy

variable {maxRounds tensors : Nat}

/-- A number that the network determines may be too large for a word. -/
theorem failsBy_count {field : String} (about : field ∈ ["extent", "stride", "copy byte count"])
    (value : Nat) : FailsBy (Explained maxRounds tensors) (count field value) :=
  .count fun large => .inl (.overflow about large)

theorem failsBy_small {field : String} {value : Nat} (small : value < UInt32.size) :
    FailsBy (Explained maxRounds tensors) (count field value) :=
  .count fun large => absurd small (Nat.not_lt.mpr large)

theorem failsBy_extents (tensor : Tensor) (axes : List Axis) :
    FailsBy (Explained maxRounds tensors) (extents tensor axes) := by
  induction axes with
  | nil => exact .pure ()
  | cons axis outer ih => exact (failsBy_count (by simp) _).bind fun _ => ih

theorem failsBy_strides (tensor : Tensor) {resolved : AxisMap} {axes : List Axis}
    (has : ∀ axis ∈ axes, resolved.has axis) :
    FailsBy (Explained maxRounds tensors) (strides tensor resolved axes) := by
  induction axes with
  | nil => exact .pure ()
  | cons axis outer ih =>
    obtain ⟨here, later⟩ := List.forall_mem_cons.mp has
    obtain ⟨stride, found⟩ := Option.isSome_iff_exists.mp here
    unfold strides
    simp only [found]
    exact (failsBy_count (by simp) _).bind fun _ => ih later

/-- A resolved tensor has a stride for each axis of its order. -/
theorem failsBy_descriptor {id : TensorId} {tensor : Tensor} (shaped : tensor.Shaped)
    (resolved : tensor.Resolved) (known : id.index < tensors) :
    FailsBy (Explained maxRounds tensors) (descriptor id tensor) := by
  obtain ⟨strides, -, atStrides⟩ := resolved
  have has : ∀ axis ∈ tensor.order.axes, strides.has axis := fun axis member =>
    (shaped.resolved strides atStrides axis).mpr ((shaped.axes axis).mp member)
  have few := shaped.rank_le
  have small : tensor.order.rank < UInt32.size := by
    have bound : maxAxes < UInt32.size := by decide
    omega
  unfold descriptor
  simp only [atStrides]
  refine (FailsBy.count fun large => .inr ⟨large.trans known.le, _, rfl⟩).bind fun _ => ?_
  refine (FailsBy.word _).bind fun _ => (FailsBy.word _).bind fun _ => ?_
  refine (failsBy_small small).bind fun _ => (failsBy_extents tensor _).bind fun _ => ?_
  exact failsBy_strides tensor has

end Image

namespace Graph

open Image

variable {g : Graph} {maxRounds : Nat}

/-- No two stages write one tensor. -/
theorem Wired.size_stages_le (wired : g.Wired) : g.stages.size ≤ g.tensors.size := by
  choose site hosts atId using fun place : Fin g.stages.size =>
    wired.site_of_mem (show (⟨place⟩ : StageId) ∈ g.stageIds from mem_stageIds.mpr place.isLt)
  have injective : Function.Injective fun place =>
      (⟨(site place).outputId.index, (Array.getElem?_eq_some_iff.mp (hosts place).output).1⟩ :
        Fin g.tensors.size) := by
    intro place place' same
    have outputs : (site place).outputId = (site place').outputId :=
      congrArg TensorId.mk (Fin.mk.inj same)
    have ids := (hosts place).id_eq_of_outputId_eq (hosts place') wired outputs
    rw [atId, atId] at ids
    exact Fin.ext (StageId.mk.inj ids)
  simpa using Fintype.card_le_of_injective _ injective

namespace Settled

theorem failsBy_writeStage (settled : g.Settled) {id : StageId} (member : id ∈ g.stageIds) :
    FailsBy (Explained maxRounds g.tensors.size) (g.writeStage id) := by
  obtain ⟨site, hosts, rfl⟩ := settled.formed.wired.site_of_mem member
  have decided := settled.decided site.id site.stage hosts.stage
  have one : 1 < UInt32.size := by decide
  have described {id : TensorId} {tensor : Tensor} (atId : g.tensors[id.index]? = some tensor) :
      FailsBy (Explained maxRounds g.tensors.size) (descriptor id tensor) :=
    failsBy_descriptor (settled.formed.shaped atId) (settled.resolved atId)
      (Array.getElem?_eq_some_iff.mp atId).1
  have inputCount : site.stage.inputs.length < UInt32.size := by rwa [hosts.inputs]
  have outputCount : site.stage.outputs.length < UInt32.size := by rwa [hosts.outputs]
  refine .ask (stage_eq_ok_iff.mpr hosts.stage) fun writer => ?_
  rw [ensures_ite]
  refine ⟨fun _ => trivial, fun executed => ?_⟩
  have params : FailsBy (Explained maxRounds g.tensors.size) (g.writeParams site.id) := by
    refine .ask hosts.site_eq ?_
    cases operation : site.stage.operation with
    | expand offset =>
      exact absurd (by simp [Stage.category, Stage.kind, operation, Operation.kind, Kind.category])
        executed
    | copy demands mode =>
      rw [operation] at decided
      obtain ⟨mode, rfl⟩ := Option.isSome_iff_exists.mp decided
      exact (FailsBy.word _).bind fun _ => failsBy_count (by simp) _
    | power params =>
      exact (FailsBy.float _).bind fun _ => (FailsBy.float _).bind fun _ => .float _
  have tensors : FailsBy (Explained maxRounds g.tensors.size) (g.writeTensors site.id) := by
    refine .ask hosts.site_eq ?_
    cases operation : site.stage.operation with
    | expand offset =>
      exact absurd (by simp [Stage.category, Stage.kind, operation, Operation.kind, Kind.category])
        executed
    | copy demands mode => exact (described hosts.input).bind fun _ => described hosts.output
    | power params => exact (described hosts.input).bind fun _ => described hosts.output
  refine FailsBy.bind (.record ?_) (fun _ => .pure 1) writer
  refine (FailsBy.word _).bind fun _ => (FailsBy.word _).bind fun _ => ?_
  refine (failsBy_small inputCount).bind fun _ => (failsBy_small outputCount).bind fun _ => ?_
  exact params.bind fun _ => tensors

/-- The image of a settled graph fails only for a number that does not fit in a word. -/
theorem image_error (settled : g.Settled) {error : LoweringError}
    (failed : g.image = .error error) : Explained maxRounds g.tensors.size error := by
  obtain ⟨order, scheduled, ordered⟩ := settled.formed.wired.exists_schedule
  have known : ∀ id ∈ order, id ∈ g.stageIds := fun id => (ordered.mem_iff id).mp
  have wrote : FailsBy (Explained maxRounds g.tensors.size) (sweep g.writeStage order) :=
    .sweep fun id member => settled.failsBy_writeStage (known id member)
  have counted := writeStages_ensures settled.formed known Writer.withHeader
  simp only [Graph.image, scheduled, bind_eq_error, reduceCtorEq, false_or, Except.ok.injEq,
    exists_eq_left'] at failed
  cases outcome : sweep g.writeStage order Writer.withHeader with
  | error error' after =>
    rw [outcome] at failed
    cases failed
    exact (wrote Writer.withHeader).of_error outcome
  | ok count after =>
    obtain ⟨body, records, rfl, -, describe, length⟩ := counted.of_ok outcome
    simp only [outcome, bind_eq_error] at failed
    rcases failed with failed | ⟨_, _, failed⟩
    · have patched := finish_append body count
      rw [failed] at patched
      have few : count ≤ g.tensors.size := by
        rw [← length, ← describe.length_eq]
        refine (List.length_filter_le _ _).trans ?_
        rw [ordered.length_eq]
        exact settled.formed.wired.size_stages_le
      exact .inr ⟨patched.1.trans few, _, patched.2⟩
    · cases failed

end Settled

end Graph

end TensorLowering
