import TensorLowering.Graph.Basic
import TensorLowering.Text.Json

namespace TensorLowering

namespace Snapshot

open Text (Json)

/-- Scales in a snapshot are numbers that always show a point or an exponent; the exponent appears
below a millionth and from ten million millions on. -/
def scaleStyle : Decimal.Style where
  tie := .even
  positional := fun leading => -6 ≤ leading && leading ≤ 12
  wholePoint := true

/-- A snapshot has no number for what is not finite. -/
def scale (value : Float32) : Json :=
  match Decimal.Binary32.ofFloat value with
  | .finite negative mantissa exponent =>
    .number (scaleStyle.finiteText negative mantissa exponent)
  | _ => .null

def axisMap (m : AxisMap) : Json :=
  .object (m.toList.map fun entry => (entry.1.text, .ofNat entry.2))

def slot : Slot → Json
  | .any => .string "Any"
  | .compact => .string "Compact"
  | .fixed bytes => .object [("Fixed", .ofNat bytes.toNat)]

def requirement (r : Requirement) : Json :=
  .object [("slots", .array (r.slots.toList.map slot))]

def stageIdOf (id : StageId) : Json := .ofNat id.index

def tensorIdOf (id : TensorId) : Json := .ofNat id.index

def tensor (id : TensorId) (t : Tensor) : Json :=
  .object [
    ("id", tensorIdOf id),
    ("name", .string t.name),
    ("usage", .string t.role.name),
    ("desc", .object [("dtype", .string t.type.name), ("dims", axisMap t.extents)]),
    ("order", .string t.order.text),
    ("required_strides", requirement t.requirement),
    ("strides", .ofOption axisMap t.strides),
    ("scale", scale t.scale),
    ("batch", .string t.batching.name),
    ("producer", .ofOption stageIdOf t.producer),
    ("consumers", .array (t.consumers.map stageIdOf))]

def origin (o : Origin) : Json :=
  .object [("name", .string o.name), ("layer_type", .string o.layerType)]

def stage (id : StageId) (s : Stage) : Json :=
  .object [
    ("id", stageIdOf id),
    ("name", .string s.name),
    ("kind", .string s.kind.name),
    ("category", .string s.category.name),
    ("origin", .ofOption origin s.origin),
    ("inputs", .array (s.inputs.map tensorIdOf)),
    ("outputs", .array (s.outputs.map tensorIdOf))]

def graph (g : Graph) : Json :=
  .object [
    ("name", .string g.name),
    ("data", .array (g.tensors.toList.zipIdx.map fun (t, place) => tensor ⟨place⟩ t)),
    ("stages", .array (g.stages.toList.zipIdx.map fun (s, place) => stage ⟨place⟩ s))]

end Snapshot

def Graph.snapshotText (g : Graph) : String := (Snapshot.graph g).pretty

end TensorLowering
