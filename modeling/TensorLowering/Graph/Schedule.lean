import TensorLowering.Graph.Basic

namespace TensorLowering

/-- How far a schedule has come: for each stage the number of inputs it still waits for, and the
stages that wait for none, lowest handle first. -/
structure Frontier where
  pending : Array Nat
  ready : List StageId
  deriving DecidableEq

/-- Puts a stage among the ready ones, behind those with a lower handle. -/
def insertReady (id : StageId) : List StageId → List StageId
  | [] => [id]
  | first :: rest =>
    if id.index < first.index then id :: first :: rest else first :: insertReady id rest

namespace Graph

/-- How many of the tensors some stage produces. A tensor listed twice counts twice. -/
def countProduced (g : Graph) : List TensorId → Except LoweringError Nat
  | [] => .ok 0
  | id :: rest => do
    let tensor ← g.tensor id
    let others ← g.countProduced rest
    return if tensor.producer.isSome then others + 1 else others

def initialFrontier (g : Graph) : Except LoweringError Frontier := do
  let pending ← g.stages.toList.mapM fun stage => g.countProduced stage.inputs
  return ⟨pending.toArray, g.stageIds.filter fun id => pending[id.index]? = some 0⟩

/-- Lets a reader of a finished tensor wait for one thing less; for as many as the number of times
it reads the tensor. -/
def releaseReader (g : Graph) (finished : TensorId) (f : Frontier) (reader : StageId) :
    Except LoweringError Frontier := do
  let stage ← g.stage reader
  let uses := stage.inputs.count finished
  match f.pending[reader.index]? with
  | none => throw (.contract (.unknownStage reader))
  | some waiting =>
    if waiting < uses then
      throw (.internal (.releasedTooOften reader))
    else
      return { pending := f.pending.setIfInBounds reader.index (waiting - uses)
               ready := if waiting = uses then insertReady reader f.ready else f.ready }

def releaseOutputs (g : Graph) (f : Frontier) (id : StageId) : Except LoweringError Frontier := do
  let stage ← g.stage id
  stage.outputs.foldlM (fun f output => do
    (← g.tensor output).consumers.foldlM (g.releaseReader output) f) f

/-- Takes ready stages, the lowest handle first, at most as many as `steps`. -/
def drain (g : Graph) : (steps : Nat) → Frontier → Except LoweringError (List StageId × Frontier)
  | 0, f => .ok ([], f)
  | steps + 1, f =>
    match f.ready with
    | [] => .ok ([], f)
    | next :: rest => do
      let released ← g.releaseOutputs { f with ready := rest } next
      let (later, reached) ← g.drain steps released
      return (next :: later, reached)

/-- The name of the first tensor that some stage produces, or no name. -/
def firstProduced (g : Graph) : List TensorId → Except LoweringError String
  | [] => .ok ""
  | id :: rest => do
    let tensor ← g.tensor id
    if tensor.producer.isSome then return tensor.name else g.firstProduced rest

/-- Why the schedule stops early: the first stage that still waits is part of a circle, or behind
one. -/
def stuck (g : Graph) (f : Frontier) (released : Nat) : Except LoweringError LoweringError := do
  match g.stageIds.find? fun id => (f.pending[id.index]?).any (0 < ·) with
  | none => return .contract (.unknownStage ⟨released⟩)
  | some id =>
    let stage ← g.stage id
    return .contract (.cycle stage.name (← g.firstProduced stage.inputs))

/-- All stages, each behind those that write its inputs. Of the stages that may come next the one
with the lowest handle does, so the order is fixed by the graph. A graph without circles releases
each stage once, so the number of stages bounds the steps. -/
def schedule (g : Graph) : Except LoweringError (List StageId) := do
  let start ← g.initialFrontier
  let (order, reached) ← g.drain g.stages.size start
  if order.length = g.stages.size then
    return order
  else
    throw (← g.stuck reached order.length)

end Graph

end TensorLowering
