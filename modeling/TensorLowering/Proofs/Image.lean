import TensorLowering.Proofs.Loader
import TensorLowering.Proofs.Reachable

namespace TensorLowering

open Attempt TensorLowering.Graph

namespace Image

/-- The image says about the tensor what the graph says, every number in full. -/
structure Descriptor.Describes (descriptor : Descriptor) (id : TensorId) (tensor : Tensor) : Prop where
  index : descriptor.index.toNat = id.index
  type : descriptor.type = tensor.type.code
  order : descriptor.order = tensor.order.code
  axisCount : descriptor.axisCount.toNat = tensor.order.rank
  extents : descriptor.extents.map (some ·.toNat) = tensor.order.axes.map tensor.extents.get?
  strides : ∃ resolved, tensor.strides = some resolved ∧
    descriptor.strides.map (some ·.toNat) = tensor.order.axes.map resolved.get?

/-- A copy is described by its mode and the bytes it moves, a power stage by the bit patterns of its
numbers, with the shift scaled as the output is. -/
def RecordParams.Describes (params : RecordParams) (site : Site) : Prop :=
  match site.stage.operation with
  | .copy _ mode => ∃ chosen byteCount, mode = some chosen ∧ params = .copy chosen.code byteCount ∧
      byteCount.toNat = site.input.elements * site.input.type.size
  | .power given => params =
      .power given.scale.toBits (given.shift * site.output.scale).toBits given.power.toBits
  | .expand _ => False

structure StageRecord.Describes (record : StageRecord) (site : Site) : Prop where
  kind : record.kind = site.stage.kind.code
  category : record.category = site.stage.category.code
  inputCount : record.inputCount = 1
  outputCount : record.outputCount = 1
  params : record.params.Describes site
  inputs : ∃ descriptor, record.inputs = [descriptor] ∧
    descriptor.Describes site.inputId site.input
  outputs : ∃ descriptor, record.outputs = [descriptor] ∧
    descriptor.Describes site.outputId site.output

theorem encodes_extents (tensor : Tensor) (axes : List Axis) :
    Encodes (extents tensor axes) (Reader.times Reader.word axes.length)
      fun values => values.map UInt32.toNat = axes.map tensor.extent := by
  induction axes with
  | nil => exact .pure rfl
  | cons axis outer ih =>
    refine (encodes_count _ _).bind fun _ first same => ih.map fun later same' => ?_
    rw [List.map_cons, List.map_cons, same, same']

theorem encodes_strides (tensor : Tensor) (resolved : AxisMap) (axes : List Axis) :
    Encodes (strides tensor resolved axes) (Reader.times Reader.word axes.length)
      fun values => values.map (some ·.toNat) = axes.map resolved.get? := by
  induction axes with
  | nil => exact .pure rfl
  | cons axis outer ih =>
    unfold strides
    cases found : resolved.get? axis with
    | none =>
      have refused : Encodes (throw (.image (.unresolvedStrides tensor.name)) : Attempt Writer Unit)
          Reader.word fun _ => False := .throw (by simp) _
      exact refused.bind fun _ _ impossible => impossible.elim
    | some stride =>
      refine (encodes_count _ _).bind fun _ first same => ih.map fun later same' => ?_
      rw [List.map_cons, List.map_cons, same, same', found]

theorem encodes_descriptor {id : TensorId} {tensor : Tensor} (shaped : tensor.Shaped) :
    Encodes (descriptor id tensor) Reader.descriptor (·.Describes id tensor) := by
  unfold descriptor Reader.descriptor
  cases found : tensor.strides with
  | none => exact .throw (by simp) _
  | some resolved =>
    refine (encodes_count _ _).bind fun _ index sameIndex => ?_
    refine (encodes_word _).bind fun _ type sameType => ?_
    refine (encodes_word _).bind fun _ order sameOrder => ?_
    refine (encodes_count _ _).bind fun _ axisCount sameCount => ?_
    rw [sameCount]
    refine (encodes_extents tensor _).bind fun _ extents sameExtents => ?_
    refine (encodes_strides tensor resolved _).map fun strides sameStrides => ?_
    refine ⟨sameIndex, sameType, sameOrder, sameCount, ?_, resolved, found, sameStrides⟩
    have full : tensor.order.axes.map tensor.extents.get? =
        (tensor.order.axes.map tensor.extent).map some := by
      rw [List.map_map]
      refine List.map_congr_left fun axis member => ?_
      obtain ⟨extent, found⟩ := Option.isSome_iff_exists.mp ((shaped.axes axis).mp member)
      simp [Tensor.extent, found]
    rw [full, ← sameExtents, List.map_map]
    rfl

variable {g : Graph}

theorem encodes_params {site : Site} (hosts : g.Hosts site) :
    Encodes (g.writeParams site.id) (Reader.params site.stage.kind.code) (·.Describes site) := by
  refine .ask hosts.site_eq ?_
  unfold RecordParams.Describes Stage.kind
  cases operation : site.stage.operation with
  | expand offset => exact .throw (by simp [Stage.refuse]) _
  | copy demands mode =>
    cases mode with
    | none => exact .throw (by simp [Stage.fault]) _
    | some mode =>
      refine (encodes_word _).bind fun _ code sameCode => ?_
      refine (encodes_count _ _).map fun byteCount sameCount => ?_
      exact ⟨mode, byteCount, rfl, by rw [sameCode], sameCount⟩
  | power params =>
    refine (encodes_float _).bind fun _ scale sameScale => ?_
    refine (encodes_float _).bind fun _ shift sameShift => ?_
    refine (encodes_float _).map fun power samePower => ?_
    rw [sameScale, sameShift, samePower]

theorem encodes_record (formed : g.WellFormed) {site : Site} (hosts : g.Hosts site) :
    Encodes (record do
        word site.stage.kind.code
        word site.stage.category.code
        count "input count" site.stage.inputs.length
        count "output count" site.stage.outputs.length
        g.writeParams site.id
        g.writeTensors site.id)
      Reader.record (·.Describes site) := by
  refine .record ?_
  unfold Reader.record
  refine (encodes_word _).bind fun _ kind sameKind => ?_
  refine (encodes_word _).bind fun _ category sameCategory => ?_
  refine (encodes_count _ _).bind fun _ inputCount oneInput => ?_
  refine (encodes_count _ _).bind fun _ outputCount oneOutput => ?_
  subst sameKind
  refine (encodes_params hosts).bind fun _ params sameParams => ?_
  rw [hosts.inputs, List.length_singleton] at oneInput
  rw [hosts.outputs, List.length_singleton] at oneOutput
  rw [oneInput, oneOutput]
  refine .ask hosts.site_eq ?_
  split
  · exact .throw (by simp [Stage.refuse]) _
  · refine (encodes_descriptor (formed.shaped hosts.input)).single.bind fun _ inputs sameInput => ?_
    refine (encodes_descriptor (formed.shaped hosts.output)).single.map fun outputs sameOutput => ?_
    exact ⟨rfl, sameCategory, UInt32.toNat_inj.mp oneInput, UInt32.toNat_inj.mp oneOutput, sameParams,
      sameInput, sameOutput⟩

end Image

namespace Graph

/-- Something executes the stage, so that the image has a record of it. -/
def executes (g : Graph) (id : StageId) : Bool :=
  (g.stages[id.index]?).any fun stage => stage.category ≠ .special

variable {g : Graph}

open Image

/-- The records follow the stages that are executed, one for one. -/
theorem writeStages_ensures (formed : g.WellFormed) {order : List StageId}
    (known : ∀ id ∈ order, id ∈ g.stageIds) (writer : Writer) :
    (sweep g.writeStage order).Ensures writer
      (fun count after => ∃ bytes records, after = writer.append bytes ∧
        Reads (Reader.times Reader.record count) bytes records ∧
        List.Forall₂ (fun id record => ∃ site, g.Hosts site ∧ site.id = id ∧ record.Describes site)
          (order.filter g.executes) records ∧ records.length = count)
      fun error _ => ∀ failure, error ≠ .negotiation failure := by
  induction order generalizing writer with
  | nil => exact ⟨[], [], by simp [Writer.append], .pure [], .nil, rfl⟩
  | cons id rest ih =>
    obtain ⟨here, later⟩ := List.forall_mem_cons.mp known
    obtain ⟨site, hosts, rfl⟩ := formed.wired.site_of_mem here
    have executes : g.executes site.id ↔ site.stage.category ≠ .special := by
      simp [Graph.executes, hosts.stage]
    simp only [sweep, ensures_bind, ensures_pure]
    refine .ask_bind (stage_eq_ok_iff.mpr hosts.stage) ?_
    rw [ensures_ite]
    refine ⟨fun special => ?_, fun executed => ?_⟩
    · refine (ih later writer).mono ?_ fun _ _ => id
      intro count after reached
      obtain ⟨bytes, records, appended, reads, describe, length⟩ := reached
      have skipped : g.executes site.id = false := by simpa [special] using executes
      rw [Nat.zero_add, List.filter_cons_of_neg (by simp [skipped])]
      exact ⟨bytes, records, appended, reads, describe, length⟩
    · rw [ensures_bind]
      refine (encodes_record formed hosts writer).mono ?_ fun _ _ => id
      intro _ written reached
      obtain ⟨first, record, rfl, readsFirst, describes⟩ := reached
      rw [ensures_pure]
      refine (ih later _).mono ?_ fun _ _ => id
      intro count after reached
      obtain ⟨bytes, records, rfl, reads, describe, length⟩ := reached
      rw [Nat.add_comm, List.filter_cons_of_pos (executes.mpr executed)]
      exact ⟨first ++ bytes, record :: records, by simp [Writer.append], readsFirst.cons reads,
        .cons ⟨site, hosts, rfl, describes⟩ describe, congrArg Nat.succ length⟩

/-- Patching the number of records changes nothing else. It fails only if the number does not fit
in a word. -/
theorem finish_append (body : List UInt8) (records : Nat) :
    match (Writer.withHeader.append body).finish records with
    | .ok image => records < UInt32.size ∧
        image.toList = magic ++ wordBytes version ++ wordBytes (.ofNat records) ++ body
    | .error error => UInt32.size ≤ records ∧ error = .image (.overflow "stage count" records) := by
  unfold Writer.finish
  by_cases small : records < UInt32.size
  · have inside : recordCountOffset + 4 ≤ (Writer.withHeader.append body).length := by
      rw [Writer.length_append, show Writer.withHeader.length = 12 from rfl, recordCountOffset]
      omega
    have patched : patch recordCountOffset (.ofNat records) (Writer.withHeader.append body) =
        .ok () ((Writer.withHeader.append body).overwrite recordCountOffset
          (wordBytes (.ofNat records))) := by
      change (if _ then _ else _ : Attempt Writer Unit) _ = _
      rw [if_pos inside]
      rfl
    simp only [small, if_true, patched, true_and]
    simp [Writer.overwrite, Writer.append, Writer.withHeader, Writer.empty, recordCountOffset,
      wordBytes, magic]
  · simp only [small, if_false]
    exact ⟨Nat.le_of_not_lt small, rfl⟩

theorem image_eq_ok_iff {order : List StageId} (scheduled : g.schedule = .ok order)
    {image : Array UInt8} {records : Nat} :
    g.image = .ok (image, records) ↔ ∃ writer,
      sweep g.writeStage order Writer.withHeader = .ok records writer ∧
        writer.finish records = .ok image := by
  simp only [Graph.image, scheduled, bind_eq_ok, Except.ok.injEq, exists_eq_left']
  cases sweep g.writeStage order Writer.withHeader with
  | error error writer => simp [throw, throwThe, MonadExceptOf.throw]
  | ok count writer =>
    simp only [bind_eq_ok, pure, Except.pure, Except.ok.injEq, Prod.mk.injEq, EStateM.Result.ok.injEq]
    constructor
    · rintro ⟨image', finished, rfl, rfl⟩
      exact ⟨writer, ⟨rfl, rfl⟩, finished⟩
    · rintro ⟨_, ⟨rfl, rfl⟩, finished⟩
      exact ⟨image, finished, rfl, rfl⟩

/-- A finished image is decoded into records that describe the executed stages in the order of the
schedule. -/
theorem image_decode (formed : g.WellFormed) {image : Array UInt8} {records : Nat}
    (written : g.image = .ok (image, records)) :
    ∃ order contents, g.schedule = .ok order ∧ decode image.toList = some contents ∧
      contents.magic = magic ∧ contents.version = version ∧
      contents.recordCount.toNat = records ∧ contents.records.length = records ∧
      List.Forall₂ (fun id record => ∃ site, g.Hosts site ∧ site.id = id ∧ record.Describes site)
        (order.filter g.executes) contents.records := by
  obtain ⟨order, scheduled, ordered⟩ := formed.wired.exists_schedule
  have wrote := writeStages_ensures formed (fun id => (ordered.mem_iff id).mp) Writer.withHeader
  obtain ⟨writer, swept, finished⟩ := (image_eq_ok_iff scheduled).mp written
  obtain ⟨body, found, rfl, reads, describe, length⟩ := wrote.of_ok swept
  have patched := finish_append body records
  rw [finished] at patched
  obtain ⟨small, listed⟩ := patched
  have full : (UInt32.ofNat records).toNat = records := UInt32.toNat_ofNat_of_lt' small
  have whole : Reads Reader.contents (magic ++ (wordBytes version ++ (wordBytes (.ofNat records) ++
      (body ++ [])))) ⟨magic, version, .ofNat records, found⟩ := by
    refine (reads_bytes magic).bind ((reads_word version).bind ((reads_word _).bind ?_))
    rw [full]
    exact reads.bind (.pure _)
  have decoded := whole []
  refine ⟨order, ⟨magic, version, .ofNat records, found⟩, scheduled, ?_, rfl, rfl, full, length,
    describe⟩
  rw [listed, decode]
  simp only [List.append_nil, List.append_assoc] at decoded ⊢
  rw [decoded]

end Graph

end TensorLowering
