import TensorLowering.AxisOrder.Propagation
import TensorLowering.Batch
import TensorLowering.Graph.Integrity
import TensorLowering.Image.Record
import TensorLowering.Layout.Check
import TensorLowering.Layout.Finalize
import TensorLowering.Pipeline
import TensorLowering.Scale.Propagation
import TensorLowering.Settings
import TensorLowering.Stride.Negotiation

namespace TensorLowering

/-- What the passes work on: the graph, and the image once it is written. -/
structure Workspace where
  graph : Graph
  image : Option (Array UInt8)
  records : Nat
  deriving DecidableEq

def Workspace.ofGraph (g : Graph) : Workspace := ⟨g, none, 0⟩

namespace Pass

def updating (name : String) (work : Attempt Graph Nat) : Pass Workspace :=
  ⟨name, do
    let updated ← work.within Workspace.graph fun w graph => { w with graph := graph }
    return .ofUpdates updated⟩

def checking (name : String) (check : Graph → Except LoweringError Unit) : Pass Workspace :=
  ⟨name, do
    ask fun w => check w.graph
    return {}⟩

def validateStructure : Pass Workspace := checking "validate-structure" Graph.validate

def propagateScaleFactors (settings : Settings) : Pass Workspace :=
  updating "propagate-scale-factors" (Scale.propagate settings.inputScales)

def propagateDataOrder : Pass Workspace := updating "propagate-data-order" AxisOrder.propagate

def negotiateStrides : Pass Workspace := updating "negotiate-strides" Negotiation.negotiate

def batchSupport : Pass Workspace := updating "batch-support" Batching.determine

def finalizeLayout : Pass Workspace := updating "finalize-layout" Layout.finalize

def finalCheck : Pass Workspace := checking "final-check" Graph.checkFinal

/-- Writes the image. Without success the workspace keeps the one it had. -/
def serialize : Pass Workspace :=
  ⟨"serialize", do
    let (image, records) ← ask fun w => w.graph.image
    modify fun w => { w with image := some image, records := records }
    return {}⟩

/-- Every pass, in the order in which they are meant to run. -/
def all (settings : Settings) : List (Pass Workspace) :=
  [validateStructure, propagateScaleFactors settings, propagateDataOrder, negotiateStrides,
    batchSupport, finalizeLayout, finalCheck, serialize]

def named? (settings : Settings) (name : String) : Option (Pass Workspace) :=
  (all settings).find? fun pass => pass.name = name

end Pass

/-- From the checked graph to its image. Orders come before strides, since a requirement counts
positions of the order, and strides before everything that depends on them. -/
def Pipeline.standard (settings : Settings) : List (Step Workspace) :=
  [.pass .validateStructure] ++
    (if settings.propagateScales then [.pass (.propagateScaleFactors settings)] else []) ++
    [.pass .propagateDataOrder,
      .fixedPoint settings.maxRounds [.pass .negotiateStrides],
      .pass .batchSupport,
      .pass .finalizeLayout,
      .pass .finalCheck,
      .pass .serialize]

structure Compiled where
  image : Array UInt8
  report : PassReport
  records : Nat
  deriving DecidableEq

/-- Lowers the graph to its image. The graph keeps what the passes decided, also when one of them
fails. -/
def compile (settings : Settings) : Attempt Graph Compiled := fun g =>
  match Pipeline.run (Pipeline.standard settings) (Workspace.ofGraph g) with
  | .ok report w => .ok ⟨w.image.getD #[], report, w.records⟩ w.graph
  | .error error w => .error error w.graph

end TensorLowering
