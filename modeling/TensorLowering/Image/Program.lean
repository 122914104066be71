import TensorLowering.Image.Record

namespace TensorLowering.Image

inductive WriteStep where
  | bytes (bytes : List UInt8)
  | word (word : UInt32)
  | signed (value : Int32)
  | float (value : Float32)
  | count (field : String) (value : Nat)
  | patch (offset : Nat) (word : UInt32)
  | tensor (id : TensorId)
  | stageParams (id : StageId)
  | stageTensors (id : StageId)
  | fail (error : LoweringError)
  | record (steps : List WriteStep)

/-- How long the image was after each step, with the steps of a record inside it. -/
inductive Progress where
  | length (bytes : Nat)
  | record (steps : List Progress)

mutual

def WriteStep.run (g : Graph) : WriteStep → Attempt Writer Progress
  | .bytes bs => reached (bytes bs)
  | .word w => reached (word w)
  | .signed value => reached (signed value)
  | .float value => reached (float value)
  | .count field value => reached (count field value)
  | .patch offset w => reached (patch offset w)
  | .tensor id => reached (do descriptor id (← ask fun _ => g.tensor id))
  | .stageParams id => reached (g.writeParams id)
  | .stageTensors id => reached (g.writeTensors id)
  | .fail error => throw error
  | .record steps => do return .record (← record (runSteps g steps))

/-- Runs the steps one after another and stops at the first failure. -/
def runSteps (g : Graph) : List WriteStep → Attempt Writer (List Progress)
  | [] => pure []
  | step :: rest => do
    let here ← step.run g
    let later ← runSteps g rest
    return here :: later

/-- Writes, and tells how long the image is then. -/
def reached (write : Attempt Writer Unit) : Attempt Writer Progress := do
  write
  return .length (← get).length

end

end TensorLowering.Image
