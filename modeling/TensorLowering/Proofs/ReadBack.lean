import TensorLowering.Graph.Snapshot
import TensorLowering.Proofs.Compilation
import TensorLowering.Proofs.OrderChains
import TensorLowering.Proofs.OrderCodecs

/-!
The order of a tensor is written into the image as a word and into the snapshot as a text. Both are
read back, but for tensors without axes, whose order is none that could be read.
-/

namespace TensorLowering

open Attempt Image

/-- What the snapshot of a graph says about the order of a tensor. -/
def Snapshot.orderText? (g : Graph) (id : TensorId) : Option String := do
  let .array items ← (graph g).member? "data" | none
  let item ← items[id.index]?
  let .string text ← item.member? "order" | none
  return text

theorem Snapshot.orderText?_eq {g : Graph} {id : TensorId} {tensor : Tensor}
    (atId : g.tensors[id.index]? = some tensor) : orderText? g id = some tensor.order.text := by
  simp [orderText?, graph, Text.Json.member?, atId, Snapshot.tensor]

/-- Without axes there is no word that would be read, and no text. -/
theorem AxisOrder.refused_of_axes_eq_nil {order : AxisOrder} (none : order.axes = []) :
    ofCode order.code = .error (.invalidCode 0) ∧ ofText order.text = .error .empty := by
  obtain rfl : order = ⟨[]⟩ := by
    cases order
    exact congrArg AxisOrder.mk none
  refine ⟨by simp [AxisOrder.code, pack, ofCode, unpack?, ofAxes], ?_⟩
  exact ofText_eq_error_iff.mpr ⟨[], by simp [AxisOrder.text, Text.trim, Names], rfl⟩

/-- The order of a tensor is what is read from the word and from the text, unless the tensor has no
axes: then neither is read. -/
structure Tensor.ReadFrom (tensor : Tensor) (word : UInt32) (text : String) : Prop where
  read : tensor.extents.axes ≠ [] →
    AxisOrder.ofCode word = .ok tensor.order ∧ AxisOrder.ofText text = .ok tensor.order
  refused : tensor.extents.axes = [] →
    AxisOrder.ofCode word = .error (.invalidCode 0) ∧ AxisOrder.ofText text = .error .empty

theorem Tensor.Shaped.axes_eq_nil_iff {tensor : Tensor} (shaped : tensor.Shaped) :
    tensor.order.axes = [] ↔ tensor.extents.axes = [] := by
  simp only [List.eq_nil_iff_forall_not_mem, shaped.axes, AxisMap.mem_axes]

theorem Tensor.Shaped.readFrom {tensor : Tensor} (shaped : tensor.Shaped) :
    tensor.ReadFrom tensor.order.code tensor.order.text where
  read axes := by
    have proper : tensor.order.Proper := ⟨mt shaped.axes_eq_nil_iff.mp axes, shaped.nodup⟩
    exact ⟨proper.ofCode_code, proper.ofText_text⟩
  refused none := AxisOrder.refused_of_axes_eq_nil (shaped.axes_eq_nil_iff.mpr none)

namespace Graph

variable {g : Graph}

/-- The image describes a tensor of the graph, and what it and the snapshot say about the order of
the tensor is read back, unless there are no axes. -/
def Restores (g : Graph) (descriptor : Descriptor) : Prop :=
  ∃ (id : TensorId) (tensor : Tensor) (text : String), g.tensors[id.index]? = some tensor ∧
    descriptor.index.toNat = id.index ∧ Snapshot.orderText? g id = some text ∧
    tensor.ReadFrom descriptor.order text

theorem WellFormed.restores (formed : g.WellFormed) {descriptor : Descriptor} {id : TensorId}
    {tensor : Tensor} (atId : g.tensors[id.index]? = some tensor)
    (describes : descriptor.Describes id tensor) : g.Restores descriptor :=
  ⟨id, tensor, tensor.order.text, atId, describes.index, Snapshot.orderText?_eq atId,
    describes.order ▸ (formed.shaped atId).readFrom⟩

/-- The orders of a lowered graph are read back from its image and from its snapshot: those of all
tensors that the image describes, except that a tensor without axes has none that could be read. -/
theorem Reachable.compile_restores (reachable : g.Reachable) {settings : Settings}
    {compiled : Compiled} {after : Graph} (succeeded : compile settings g = .ok compiled after) :
    ∃ contents, decode compiled.image.toList = some contents ∧
      ∀ record ∈ contents.records, ∀ descriptor ∈ record.inputs ++ record.outputs,
        after.Restores descriptor := by
  obtain ⟨_, _, lowered⟩ := reachable.wellFormed.exists_lowered succeeded
  obtain ⟨order, contents, -, decoded, -, -, -, -, describe⟩ :=
    image_decode lowered.formed lowered.written
  refine ⟨contents, decoded, fun record member descriptor listed => ?_⟩
  obtain ⟨place, bound, rfl⟩ := List.mem_iff_getElem.mp member
  obtain ⟨site, hosts, -, describes⟩ := describe.get (describe.length_eq ▸ bound) bound
  obtain ⟨input, inputs, describesInput⟩ := describes.inputs
  obtain ⟨output, outputs, describesOutput⟩ := describes.outputs
  rw [List.get_eq_getElem] at *
  rw [inputs, outputs] at listed
  rcases List.mem_append.mp listed with read | written
  · obtain rfl := List.mem_singleton.mp read
    exact lowered.formed.restores hosts.input describesInput
  · obtain rfl := List.mem_singleton.mp written
    exact lowered.formed.restores hosts.output describesOutput

/-- The turned plane keeps its order on the way through the image and through the snapshot. -/
theorem compile_restores_turnedPlane :
    ∃ compiled after contents, compile {} turnedPlane = .ok compiled after ∧
      decode compiled.image.toList = some contents ∧ contents.records.length = 1 ∧
      ∀ record ∈ contents.records, ∀ descriptor ∈ record.inputs ++ record.outputs,
        AxisOrder.ofCode descriptor.order = .ok ⟨[.h, .w]⟩ ∧
          ∃ (id : TensorId) (text : String), descriptor.index.toNat = id.index ∧
            Snapshot.orderText? after id = some text ∧ AxisOrder.ofText text = .ok ⟨[.h, .w]⟩ := by
  have found : ((compile {}).result? turnedPlane).bind (fun found =>
      (decode found.1.image.toList).map fun contents =>
        (contents.records.length, found.2.tensors.toList.map fun tensor =>
          (tensor.order, tensor.extents.axes))) =
        some (1, List.replicate 3 (⟨[.h, .w]⟩, [.w, .h])) := by
    decide +kernel
  obtain ⟨⟨compiled, after⟩, ran, decodes⟩ := Option.bind_eq_some_iff.mp found
  have succeeded := result?_eq_some_iff.mp ran
  obtain ⟨contents, decoded, known⟩ := Option.map_eq_some_iff.mp decodes
  obtain ⟨one, orders⟩ := Prod.mk.inj known
  obtain ⟨_, decoded', restored⟩ := reachable_turnedPlane.compile_restores succeeded
  obtain rfl := Option.some.inj (decoded.symm.trans decoded')
  refine ⟨compiled, after, contents, succeeded, decoded, one,
    fun record member descriptor listed => ?_⟩
  obtain ⟨id, tensor, text, atId, index, said, readFrom⟩ :=
    restored record member descriptor listed
  have turned : (tensor.order, tensor.extents.axes) ∈
      List.replicate 3 ((⟨[.h, .w]⟩ : AxisOrder), [Axis.w, .h]) :=
    orders ▸ List.mem_map_of_mem (Array.mem_toList_iff.mpr (Array.mem_of_getElem? atId))
  obtain ⟨order, axes⟩ := Prod.mk.inj (List.eq_of_mem_replicate turned)
  obtain ⟨word, parsed⟩ := readFrom.read (by simp [axes])
  exact ⟨order ▸ word, id, text, index, said, order ▸ parsed⟩

/-- A single byte that is copied. -/
def copiedByte : Graph where
  name := "byte"
  tensors := #[
    { Tensor.fresh "given" .u8 {} .input with consumers := [⟨0⟩] },
    { Tensor.fresh "copied" .u8 {} .intermediate with producer := some ⟨0⟩ }]
  stages := #[⟨"copy", none, [⟨0⟩], [⟨1⟩], .copy {} none⟩]

theorem reachable_copiedByte : copiedByte.Reachable := by
  let given := ((empty "byte").addTensor "given" .u8 {} .input).2
  let copied := (given.addTensor "copied" .u8 {} .intermediate).2
  have tensors : copied.Reachable :=
    ((Reachable.empty "byte").addTensor _ _ _ (by decide)).addTensor _ _ _ (by decide)
  have copies : copied.addCopy "copy" none [⟨0⟩] [⟨1⟩] {} = .ok (⟨0⟩, copiedByte) := by
    decide +kernel
  exact tensors.addCopy copies

/-- The byte is lowered, but neither the word nor the text of its order is read. -/
theorem not_restores_copiedByte :
    copiedByte.Reachable ∧ ∃ compiled after contents,
      compile {} copiedByte = .ok compiled after ∧ decode compiled.image.toList = some contents ∧
      ∃ record ∈ contents.records, ∃ descriptor ∈ record.inputs, descriptor.index = 0 ∧
        AxisOrder.ofCode descriptor.order = .error (.invalidCode 0) ∧
        Snapshot.orderText? after ⟨0⟩ = some "" ∧ AxisOrder.ofText "" = .error .empty := by
  refine ⟨reachable_copiedByte, ?_⟩
  have found : ((compile {}).result? copiedByte).bind (fun found =>
      (decode found.1.image.toList).map fun contents =>
        (contents.records.map fun record => record.inputs.map fun input => (input.index, input.order),
          Snapshot.orderText? found.2 ⟨0⟩)) = some ([[(0, 0)]], some "") := by
    decide +kernel
  obtain ⟨⟨compiled, after⟩, ran, decodes⟩ := Option.bind_eq_some_iff.mp found
  obtain ⟨contents, decoded, known⟩ := Option.map_eq_some_iff.mp decodes
  obtain ⟨described, text⟩ := Prod.mk.inj known
  obtain ⟨record, records, inputs⟩ := List.map_eq_singleton_iff.mp described
  obtain ⟨descriptor, input, same⟩ := List.map_eq_singleton_iff.mp inputs
  obtain ⟨index, order⟩ := Prod.mk.inj same
  have refused := @AxisOrder.refused_of_axes_eq_nil ⟨[]⟩ rfl
  exact ⟨compiled, after, contents, result?_eq_some_iff.mp ran, decoded, record,
    by simp [records], descriptor, by simp [input], index, by rw [order]; exact refused.1, text, refused.2⟩

end Graph

end TensorLowering
