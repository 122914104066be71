import TensorLowering.Graph.Basic

namespace TensorLowering

/-- A copy of a stage without its wiring, ready to be put into a graph again. It keeps whatever was
decided about the operation. -/
structure DetachedStage where
  name : String
  origin : Option Origin
  operation : Operation
  deriving DecidableEq

namespace Graph

/-- The tensors that the readers of a tensor write. -/
def successors (g : Graph) (id : TensorId) : List TensorId :=
  match g.tensors[id.index]? with
  | none => []
  | some tensor =>
    tensor.consumers.flatMap fun reader =>
      match g.stages[reader.index]? with
      | none => []
      | some stage => stage.outputs

/-- Those of the tensors that follow a given one directly. -/
def following (g : Graph) (id : TensorId) (among : List TensorId) : List TensorId :=
  among.filter (· ∈ g.successors id)

/-- Those of the tensors that do not follow a given one directly. -/
def notFollowing (g : Graph) (id : TensorId) (among : List TensorId) : List TensorId :=
  among.filter (· ∉ g.successors id)

theorem length_following_add_length_notFollowing (g : Graph) (id : TensorId)
    (among : List TensorId) :
    (g.following id among).length + (g.notFollowing id among).length = among.length := by
  unfold following notFollowing
  induction among with
  | nil => rfl
  | cons first rest ih =>
    by_cases member : first ∈ g.successors id <;>
      simp only [List.filter_cons, member, decide_true, decide_false, not_true_eq_false,
        not_false_eq_true, if_true, List.length_cons, Bool.false_eq_true, if_false] <;>
      omega

/-- Searches breadth first for one of `targets`. `fresh` holds the tensors not yet met: a tensor
that is met moves from it to the queue, so queue and fresh tensors together grow fewer. -/
def search (g : Graph) (targets queue fresh : List TensorId) : Option TensorId :=
  match queue with
  | [] => none
  | next :: waiting =>
    if next ∈ targets then
      some next
    else
      g.search targets (waiting ++ g.following next fresh) (g.notFollowing next fresh)
  termination_by queue.length + fresh.length
  decreasing_by
    have split := g.length_following_add_length_notFollowing next fresh
    simp only [List.length_append, List.length_cons]
    omega

/-- One of `targets` that data written to `sources` can flow into, through the stages wired so
far. -/
def firstReachable? (g : Graph) (sources targets : List TensorId) : Option TensorId :=
  g.search targets sources (g.tensorIds.filter (· ∉ sources))

/-- Checks the tensors that a new stage is to write. `earlier` holds those checked before. -/
def checkOutputs (g : Graph) (name : String) (inputs earlier : List TensorId) :
    List TensorId → Except LoweringError Unit
  | [] => .ok ()
  | output :: rest => do
    let tensor ← g.tensor output
    match tensor.producer with
    | some producer =>
      throw (.contract (.alreadyProduced tensor.name (← g.stage producer).name))
    | none =>
      if output ∈ earlier then
        throw (.contract (.alreadyProduced tensor.name name))
      else if tensor.role = .input then
        throw (.contract (.producedInput tensor.name name))
      else if output ∈ inputs then
        throw (.contract (.cycle name tensor.name))
      else
        g.checkOutputs name inputs (output :: earlier) rest

/-- Looks up every handle and stops at the first unknown one. -/
def checkHandles (g : Graph) : List TensorId → Except LoweringError Unit
  | [] => .ok ()
  | id :: rest => do
    let _ ← g.tensor id
    g.checkHandles rest

/-- Whether a stage can be wired in: its tensors are known, there are as many as its kind asks for,
nobody else writes its outputs, and data cannot flow from its outputs back to its inputs. -/
def checkWiring (g : Graph) (stage : Stage) : Except LoweringError Unit := do
  g.checkHandles (stage.inputs ++ stage.outputs)
  stage.checkArity
  g.checkOutputs stage.name stage.inputs [] stage.outputs
  match g.firstReachable? stage.outputs stage.inputs with
  | none => return ()
  | some reached => throw (.contract (.cycle stage.name (← g.tensor reached).name))

/-- Enters a reader; one that reads a tensor twice is entered once. -/
def addConsumer (g : Graph) (reader : StageId) (id : TensorId) : Graph :=
  g.modifyTensor id fun tensor =>
    if reader ∈ tensor.consumers then tensor
    else { tensor with consumers := tensor.consumers ++ [reader] }

def setProducer (g : Graph) (writer : StageId) (id : TensorId) : Graph :=
  g.modifyTensor id fun tensor => { tensor with producer := some writer }

/-- Wires a stage without any check. -/
def connect (g : Graph) (stage : Stage) : Graph :=
  let id : StageId := ⟨g.stages.size⟩
  let read := stage.inputs.foldl (·.addConsumer id ·) g
  let written := stage.outputs.foldl (·.setProducer id ·) read
  { written with stages := written.stages.push stage }

/-- Wires a new stage. Its handle is the number of stages before it. -/
def insertStage (g : Graph) (stage : Stage) : Except LoweringError (StageId × Graph) := do
  g.checkWiring stage
  return (⟨g.stages.size⟩, g.connect stage)

/-- A copy that nothing has been decided about. -/
def addCopy (g : Graph) (name : String) (origin : Option Origin) (inputs outputs : List TensorId)
    (demands : CopyDemands) : Except LoweringError (StageId × Graph) :=
  g.insertStage ⟨name, origin, inputs, outputs, .copy demands none⟩

def addPower (g : Graph) (name : String) (origin : Option Origin) (inputs outputs : List TensorId)
    (params : PowerParams) : Except LoweringError (StageId × Graph) :=
  g.insertStage ⟨name, origin, inputs, outputs, .power params⟩

def addExpand (g : Graph) (name : String) (origin : Option Origin)
    (inputs outputs : List TensorId) (offset : AxisMap) :
    Except LoweringError (StageId × Graph) :=
  g.insertStage ⟨name, origin, inputs, outputs, .expand offset⟩

def detach (g : Graph) (id : StageId) : Except LoweringError DetachedStage := do
  let stage ← g.stage id
  return ⟨stage.name, stage.origin, stage.operation⟩

def addDetached (g : Graph) (name : String) (stage : DetachedStage)
    (inputs outputs : List TensorId) : Except LoweringError (StageId × Graph) :=
  g.insertStage ⟨name, stage.origin, inputs, outputs, stage.operation⟩

end Graph

end TensorLowering
