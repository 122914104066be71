import TensorLowering.Attempt
import TensorLowering.Graph.Schedule
import TensorLowering.Stride.Demand

namespace TensorLowering.Negotiation

/-- The state of a round: the graph, and for each position that the round filled the stage that
did. -/
structure Round where
  graph : Graph
  filledBy : List ((TensorId × Nat) × String)

/-- Replaces a requirement by the one merged with a stage's demand, and notes the stage at every
position that was free before. -/
def Round.fill (round : Round) (stage : String) (id : TensorId)
    (before demand merged : Requirement) : Round where
  graph := round.graph.modifyTensor id fun tensor => { tensor with requirement := merged }
  filledBy :=
    (demand.concrete.filter fun entry => !(before.get entry.1).isConcrete).map
      (fun entry => ((id, entry.1), stage)) ++ round.filledBy

/-- Adds a stage's demand to a tensor, whole or not at all, and counts a change. -/
def commit (stage : String) (id : TensorId) (demand : Requirement) : Attempt Round Nat := do
  let tensor ← ask (·.graph.tensor id)
  match demand.concrete.find? fun entry => tensor.order.rank ≤ entry.1 with
  | some beyond => throw (tensor.fault (.demandBeyondRank stage beyond.1 tensor.order.rank))
  | none =>
    match tensor.requirement.merge demand with
    | (_, .ok false) => return 0
    | (merged, .ok true) =>
      modify fun round => round.fill stage id tensor.requirement demand merged
      return 1
    | (_, .error conflict) =>
      match tensor.order.axisAt? conflict.position with
      | none => throw (tensor.fault (.noAxisAt conflict.position))
      | some axis =>
        let source := (← get).filledBy.lookup (id, conflict.position)
        throw (.negotiation
          (.conflict tensor.name axis conflict.existing conflict.demanded source stage))

/-- Asks a stage what it demands and adds that to its tensors. -/
def consult (id : StageId) : Attempt Round Nat := do
  let answer ← ask (·.graph.strideDemands id)
  let stage ← ask (·.graph.stage id)
  sweep (fun entry => commit stage.name entry.1 entry.2) answer.toList

/-- Consults the stages, readers before writers. -/
def runRound : Attempt Round Nat := do
  let order ← ask (·.graph.schedule)
  sweep consult order.reverse

/-- One round of negotiation: every stage is asked once, readers before writers, so that a demand
reaches the tensors it is made from in the same round. Counts the demands that changed something. -/
def negotiate : Attempt Graph Nat := fun g =>
  match runRound ⟨g, []⟩ with
  | .ok count round => .ok count round.graph
  | .error error round => .error error round.graph

end TensorLowering.Negotiation
