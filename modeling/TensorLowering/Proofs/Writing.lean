import TensorLowering.Image.Record
import TensorLowering.Proofs.Attempt

/-!
Tensors and stages are written by appending bytes. Which bytes these are, and whether writing
succeeds, has nothing to do with what was written before.
-/

namespace TensorLowering.Image

open Attempt

variable {α β : Type}

/-- Appends some bytes and comes to an outcome, both settled beforehand. -/
def emit (bytes : List UInt8) (outcome : Except LoweringError α) : Attempt Writer α := fun writer =>
  match outcome with
  | .ok result => .ok result (writer.append bytes)
  | .error error => .error error (writer.append bytes)

def Emits (write : Attempt Writer α) : Prop := ∃ bytes outcome, write = emit bytes outcome

@[simp] theorem Writer.append_nil (writer : Writer) : writer.append [] = writer := by
  simp [append]

theorem Writer.append_append (writer : Writer) (first later : List UInt8) :
    (writer.append first).append later = writer.append (first ++ later) := by
  simp [append]

namespace Emits

theorem pure (result : α) : Emits (Pure.pure result : Attempt Writer α) :=
  ⟨[], .ok result, funext fun writer => by simp only [emit, Writer.append_nil]; rfl⟩

theorem throw (error : LoweringError) : Emits (MonadExcept.throw error : Attempt Writer α) :=
  ⟨[], .error error, funext fun writer => by simp only [emit, Writer.append_nil]; rfl⟩

theorem bind {write : Attempt Writer α} {next : α → Attempt Writer β} (here : Emits write)
    (there : ∀ result, Emits (next result)) : Emits (write >>= next) := by
  obtain ⟨bytes, outcome, rfl⟩ := here
  cases outcome with
  | ok result =>
    obtain ⟨later, outcome, same⟩ := there result
    refine ⟨bytes ++ later, outcome, funext fun writer => ?_⟩
    simp only [Bind.bind, EStateM.bind, emit, same, Writer.append_append]
  | error error => exact ⟨bytes, .error error, rfl⟩

theorem ask (question : Except LoweringError α) :
    Emits (TensorLowering.ask fun _ : Writer => question) := by
  cases question with
  | ok answer => exact pure answer
  | error error => exact throw error

theorem word (w : UInt32) : Emits (word w) := ⟨wordBytes w, .ok (), rfl⟩

theorem count (field : String) (value : Nat) : Emits (count field value) := by
  unfold Image.count
  split
  · exact word _
  · exact throw _

/-- A record that fails emits nothing. -/
theorem record {write : Attempt Writer α} (here : Emits write) : Emits (record write) := by
  obtain ⟨bytes, outcome, rfl⟩ := here
  cases outcome with
  | ok result => exact ⟨bytes, .ok result, rfl⟩
  | error error =>
    refine ⟨[], .error error, funext fun writer => ?_⟩
    simp only [Image.record, emit, Writer.truncate_append, Writer.append_nil]

end Emits

theorem emits_extents (tensor : Tensor) (axes : List Axis) : Emits (extents tensor axes) := by
  induction axes with
  | nil => exact .pure ()
  | cons axis outer ih => exact (Emits.count _ _).bind fun _ => ih

theorem emits_strides (tensor : Tensor) (resolved : AxisMap) (axes : List Axis) :
    Emits (strides tensor resolved axes) := by
  induction axes with
  | nil => exact .pure ()
  | cons axis outer ih =>
    unfold strides
    split
    · exact (Emits.throw _).bind fun _ => ih
    · exact (Emits.count _ _).bind fun _ => ih

theorem emits_descriptor (id : TensorId) (tensor : Tensor) : Emits (descriptor id tensor) := by
  unfold descriptor
  split
  · exact .throw _
  · refine (Emits.count _ _).bind fun _ => (Emits.word _).bind fun _ => ?_
    refine (Emits.word _).bind fun _ => (Emits.count _ _).bind fun _ => ?_
    exact (emits_extents _ _).bind fun _ => emits_strides _ _ _

theorem emits_writeParams (g : Graph) (id : StageId) : Emits (g.writeParams id) := by
  refine (Emits.ask _).bind fun site => ?_
  split
  · exact .throw _
  · exact .throw _
  · exact (Emits.word _).bind fun _ => .count _ _
  · exact (Emits.word _).bind fun _ => (Emits.word _).bind fun _ => .word _

theorem emits_writeTensors (g : Graph) (id : StageId) : Emits (g.writeTensors id) := by
  refine (Emits.ask _).bind fun site => ?_
  split
  · exact .throw _
  · exact (emits_descriptor _ _).bind fun _ => emits_descriptor _ _

theorem emits_writeStage (g : Graph) (id : StageId) : Emits (g.writeStage id) := by
  refine (Emits.ask _).bind fun stage => ?_
  split
  · exact .pure 0
  · refine (Emits.record ?_).bind fun _ => .pure 1
    refine (Emits.word _).bind fun _ => (Emits.word _).bind fun _ => ?_
    refine (Emits.count _ _).bind fun _ => (Emits.count _ _).bind fun _ => ?_
    exact (emits_writeParams g id).bind fun _ => emits_writeTensors g id

end TensorLowering.Image
