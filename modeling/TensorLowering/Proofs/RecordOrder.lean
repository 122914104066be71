import Mathlib.Data.List.Perm.Basic
import TensorLowering.Proofs.Fitting
import TensorLowering.Proofs.Rearrangement
import TensorLowering.Proofs.Writing

/-!
A rearranged graph passes the last check if the graph does, and its image holds the same records, in
another order perhaps.
-/

namespace TensorLowering

open Attempt TensorLowering.Graph

theorem ask_ok_bind {σ α β : Type} (answer : α) (next : α → Attempt σ β) :
    (ask (fun _ => .ok answer) >>= next) = next answer := rfl

theorem Image.descriptor_unwired (id : TensorId) (tensor : Tensor) :
    descriptor id tensor.unwired = descriptor id tensor := by
  have extents (axes : List Axis) : extents tensor.unwired axes = extents tensor axes := by
    induction axes with
    | nil => rfl
    | cons axis outer ih =>
      simp only [Image.extents, ih]
      rfl
  have strides (resolved : AxisMap) (axes : List Axis) :
      strides tensor.unwired resolved axes = strides tensor resolved axes := by
    induction axes with
    | nil => rfl
    | cons axis outer ih =>
      simp only [Image.strides, ih]
      rfl
  unfold descriptor
  simp only [extents, strides]
  rfl

namespace Graph

/-- The site with the handles of stages that another one has. -/
def Site.rewire (site other : Site) : Site where
  id := other.id
  stage := site.stage
  inputId := site.inputId
  input := { site.input with
    producer := other.input.producer
    consumers := other.input.consumers }
  outputId := site.outputId
  output := { site.output with
    producer := other.output.producer
    consumers := other.output.consumers }

theorem Site.eq_rewire {site other : Site} (same : other.unwired = site.unwired) :
    other = site.rewire other := by
  obtain ⟨id, stage, inputId, input, outputId, output⟩ := site
  obtain ⟨id', stage', inputId', input', outputId', output'⟩ := other
  simp only [unwired, mk.injEq, true_and] at same
  obtain ⟨rfl, rfl, sameInput, rfl, sameOutput⟩ := same
  cases input
  cases input'
  cases output
  cases output'
  simp only [Tensor.unwired, Tensor.mk.injEq] at sameInput sameOutput
  simp [rewire, sameInput, sameOutput]

variable {g h : Graph}

section

variable {site site' : Site}

theorem checkStageFinal_congr (hosts : g.Hosts site) (hosts' : h.Hosts site')
    (same : site'.unwired = site.unwired) :
    h.checkStageFinal site'.id = g.checkStageFinal site.id := by
  rw [Site.eq_rewire same] at hosts' ⊢
  simp only [checkStageFinal, hosts.site_eq, hosts'.site_eq]
  rfl

theorem writeStage_congr (hosts : g.Hosts site) (hosts' : h.Hosts site')
    (same : site'.unwired = site.unwired) :
    h.writeStage site'.id = g.writeStage site.id := by
  rw [Site.eq_rewire same] at hosts' ⊢
  have params : h.writeParams (site.rewire site').id = g.writeParams site.id := by
    simp only [writeParams, hosts.site_eq, hosts'.site_eq]
    rfl
  have tensors : h.writeTensors (site.rewire site').id = g.writeTensors site.id := by
    have input : Image.descriptor (site.rewire site').inputId (site.rewire site').input =
        Image.descriptor site.inputId site.input := by
      rw [← Image.descriptor_unwired, ← Image.descriptor_unwired site.inputId]
      rfl
    have output : Image.descriptor (site.rewire site').outputId (site.rewire site').output =
        Image.descriptor site.outputId site.output := by
      rw [← Image.descriptor_unwired, ← Image.descriptor_unwired site.outputId]
      rfl
    simp only [writeTensors, hosts.site_eq, hosts'.site_eq, ask_ok_bind, input, output]
    rfl
  simp only [writeStage, stage_eq_ok_iff.mpr hosts.stage, stage_eq_ok_iff.mpr hosts'.stage, params,
    tensors]
  rfl

end

theorem Rearranged.checkFinal (same : Rearranged g h) (wired : g.Wired) (wired' : h.Wired)
    (checked : g.checkFinal = .ok ()) : h.checkFinal = .ok () := by
  obtain ⟨stages, tensors⟩ := (checkFinal_eq_ok_iff wired).mp checked
  refine (checkFinal_eq_ok_iff wired').mpr ⟨fun site hosts => ?_, fun {id tensor} atId => ?_⟩
  · obtain ⟨site', hosts', alike⟩ := same.symm.exists_site hosts
    rw [← checkStageFinal_congr hosts hosts' alike]
    exact stages site' hosts'
  · obtain ⟨tensor', atId', alike⟩ := same.symm.exists_tensor atId
    rw [← Tensor.layoutViolation?_unwired, ← alike, Tensor.layoutViolation?_unwired]
    exact tensors atId'

end Graph

/-! ### Whether a stage can be written -/

namespace Image

variable {α β : Type}

/-- Whether writing succeeds, and with what result, has nothing to do with what was written
before. -/
def Steady (write : Attempt Writer α) : Prop :=
  ∀ writer writer' result after, write writer = .ok result after →
    ∃ after', write writer' = .ok result after'

theorem Emits.steady {write : Attempt Writer α} (emits : Emits write) : Steady write := by
  obtain ⟨bytes, outcome, rfl⟩ := emits
  intro writer other result after wrote
  cases outcome with
  | ok found =>
    cases wrote
    exact ⟨other.append bytes, rfl⟩
  | error error => cases wrote

/-- A sweep of writers succeeds if each of them does at the start. -/
theorem sweep_eq_ok {treat : β → Attempt Writer Nat} {items : List β} {start : Writer}
    (steady : ∀ item ∈ items, Steady (treat item))
    (each : ∀ item ∈ items, ∃ count after, treat item start = .ok count after) (writer : Writer) :
    ∃ count after, sweep treat items writer = .ok count after := by
  induction items generalizing writer with
  | nil => exact ⟨0, writer, rfl⟩
  | cons item rest ih =>
    obtain ⟨steadyHere, steadyLater⟩ := List.forall_mem_cons.mp steady
    obtain ⟨⟨here, state, first⟩, eachLater⟩ := List.forall_mem_cons.mp each
    obtain ⟨state', first'⟩ := steadyHere start writer here state first
    obtain ⟨later, after, rest'⟩ := ih steadyLater eachLater state'
    refine ⟨here + later, after, ?_⟩
    simp only [sweep, bind, EStateM.bind, first', rest']
    rfl

/-- Each writer of a sweep that succeeds would succeed at any other start. -/
theorem eq_ok_of_sweep {treat : β → Attempt Writer Nat} {items : List β} {writer after : Writer}
    {count : Nat} (steady : ∀ item ∈ items, Steady (treat item))
    (swept : sweep treat items writer = .ok count after) (start : Writer) :
    ∀ item ∈ items, ∃ count after, treat item start = .ok count after := by
  induction items generalizing writer count after with
  | nil => simp
  | cons item rest ih =>
    obtain ⟨steadyHere, steadyLater⟩ := List.forall_mem_cons.mp steady
    simp only [sweep, bind, EStateM.bind] at swept
    cases first : treat item writer with
    | error error state => simp [first] at swept
    | ok here state =>
      simp only [first] at swept
      cases later : sweep treat rest state with
      | error error state' => simp [later] at swept
      | ok others state' =>
        obtain ⟨state'', first'⟩ := steadyHere writer start here state first
        exact List.forall_mem_cons.mpr ⟨⟨here, state'', first'⟩, ih steadyLater later⟩

/-! ### What a record says -/

theorem Descriptor.Describes.unique {descriptor descriptor' : Descriptor} {id : TensorId}
    {tensor tensor' : Tensor} (describes : descriptor.Describes id tensor)
    (describes' : descriptor'.Describes id tensor') (same : tensor'.unwired = tensor.unwired) :
    descriptor' = descriptor := by
  have injective : Function.Injective fun word : UInt32 => some word.toNat :=
    fun _ _ alike => UInt32.toNat_inj.mp (Option.some.inj alike)
  have order : tensor'.order = tensor.order := (congrArg Tensor.order same :)
  have extents : tensor'.extents = tensor.extents := (congrArg Tensor.extents same :)
  have type : tensor'.type = tensor.type := (congrArg Tensor.type same :)
  have strides : tensor'.strides = tensor.strides := (congrArg Tensor.strides same :)
  obtain ⟨index, typeCode, orderCode, axisCount, extentList, resolved, atStrides, strideList⟩ :=
    describes
  obtain ⟨index', typeCode', orderCode', axisCount', extentList', resolved', atStrides',
    strideList'⟩ := describes'
  rw [strides, atStrides] at atStrides'
  cases atStrides'
  rw [type] at typeCode'
  rw [order] at orderCode' axisCount' extentList' strideList'
  rw [extents] at extentList'
  cases descriptor
  cases descriptor'
  simp only [Descriptor.mk.injEq]
  exact ⟨UInt32.toNat_inj.mp (index'.trans index.symm), typeCode'.trans typeCode.symm,
    orderCode'.trans orderCode.symm, UInt32.toNat_inj.mp (axisCount'.trans axisCount.symm),
    List.map_injective_iff.mpr injective (extentList'.trans extentList.symm),
    List.map_injective_iff.mpr injective (strideList'.trans strideList.symm)⟩

theorem RecordParams.Describes.unique {params params' : RecordParams} {site site' : Site}
    (describes : params.Describes site) (describes' : params'.Describes site')
    (same : site'.unwired = site.unwired) : params' = params := by
  rw [Site.eq_rewire same] at describes'
  unfold RecordParams.Describes at describes describes'
  simp only [Site.rewire] at describes'
  split at describes
  · rename_i demands mode operation
    simp only [operation] at describes'
    obtain ⟨chosen, byteCount, decided, rfl, bytes⟩ := describes
    obtain ⟨chosen', byteCount', decided', rfl, bytes'⟩ := describes'
    rw [decided, Option.some.injEq] at decided'
    rw [decided', UInt32.toNat_inj.mp (bytes'.trans bytes.symm)]
  · rename_i given operation
    simp only [operation] at describes'
    rw [describes, describes']
  · exact describes.elim

theorem StageRecord.Describes.unique {record record' : StageRecord} {site site' : Site}
    (describes : record.Describes site) (describes' : record'.Describes site')
    (same : site'.unwired = site.unwired) : record' = record := by
  have stage : site'.stage = site.stage := (congrArg Site.stage same :)
  have inputId : site'.inputId = site.inputId := (congrArg Site.inputId same :)
  have outputId : site'.outputId = site.outputId := (congrArg Site.outputId same :)
  have params := describes.params.unique describes'.params same
  obtain ⟨kind, category, inputCount, outputCount, -, ⟨input, oneInput, sameInput⟩,
    ⟨output, oneOutput, sameOutput⟩⟩ := describes
  obtain ⟨kind', category', inputCount', outputCount', -, ⟨input', oneInput', sameInput'⟩,
    ⟨output', oneOutput', sameOutput'⟩⟩ := describes'
  rw [stage] at kind' category'
  rw [inputId] at sameInput'
  rw [outputId] at sameOutput'
  obtain rfl := sameInput.unique sameInput' (congrArg Site.input same :)
  obtain rfl := sameOutput.unique sameOutput' (congrArg Site.output same :)
  cases record
  cases record'
  simp_all

end Image

/-! ### The records of a rearranged graph -/

namespace Graph

open Image

variable {g h : Graph}

/-- The record says what the graph says about the stage. -/
def Records (g : Graph) (stage : Stage) (record : StageRecord) : Prop :=
  ∃ site, g.Hosts site ∧ site.stage = stage ∧ record.Describes site

/-- Stages are known by what they write, so a stage has one record in all rearrangements. -/
theorem Rearranged.record_eq (same : Rearranged g h) (wired : h.Wired) {stage : Stage}
    {record record' : StageRecord} (records : g.Records stage record)
    (records' : h.Records stage record') : record' = record := by
  obtain ⟨site, hosts, rfl, describes⟩ := records
  obtain ⟨site', hosts', sameStage, describes'⟩ := records'
  obtain ⟨other, hostsOther, alike⟩ := same.exists_site hosts
  have stage : other.stage = site'.stage := (congrArg Site.stage alike :).trans sameStage.symm
  have outputs : [other.outputId] = [site'.outputId] := by
    rw [← hostsOther.outputs, ← hosts'.outputs, stage]
  obtain rfl := hostsOther.eq_of_outputId_eq hosts' wired (List.singleton_inj.mp outputs)
  exact describes.unique describes' alike

/-- The stages under some handles. -/
def stagesAt (g : Graph) (ids : List StageId) : List Stage :=
  ids.filterMap fun id => g.stages[id.index]?

theorem stagesAt_perm {ids : List StageId} (perm : ids.Perm g.stageIds) :
    (g.stagesAt ids).Perm g.stages.toList := by
  have all : g.stagesAt g.stageIds = g.stages.toList := by
    have listed : (List.range g.stages.size).map (fun place => g.stages[place]?) =
        g.stages.toList.map some := by
      refine List.ext_getElem (by simp) fun place inside _ => ?_
      have bound : place < g.stages.size := by simpa using inside
      simp [bound]
    calc g.stagesAt g.stageIds
        = ((List.range g.stages.size).map fun place => g.stages[place]?).filterMap id := by
          rw [stagesAt, stageIds, List.filterMap_map, List.filterMap_map]
          rfl
      _ = (g.stages.toList.map some).filterMap id := by rw [listed]
      _ = g.stages.toList := by simp
  exact all ▸ perm.filterMap _

/-- The records of handles are records of the stages under them. -/
theorem forall₂_stagesAt {ids : List StageId} {records : List StageRecord}
    (described : List.Forall₂ (fun id record => ∃ site, g.Hosts site ∧ site.id = id ∧
      record.Describes site) (ids.filter g.executes) records) :
    List.Forall₂ g.Records ((g.stagesAt ids).filter fun stage => stage.category ≠ .special)
      records := by
  have executed : (g.stagesAt ids).filter (fun stage => stage.category ≠ .special) =
      g.stagesAt (ids.filter g.executes) := by
    unfold stagesAt
    rw [List.filter_filterMap, List.filterMap_filter]
    refine List.filterMap_congr fun id _ => ?_
    unfold executes
    cases g.stages[id.index]? with
    | none => rfl
    | some stage => simp [Option.filter]
  rw [executed]
  generalize ids.filter g.executes = executed at described
  induction described with
  | nil => exact .nil
  | @cons id record _ _ described _ ih =>
    obtain ⟨site, hosts, rfl, describes⟩ := described
    simp only [stagesAt, List.filterMap_cons, hosts.stage]
    exact .cons ⟨site, hosts, rfl, describes⟩ ih

/-- Whatever the schedules, both graphs have the same records. -/
theorem Rearranged.records_perm (same : Rearranged g h) (wired : h.Wired)
    {order order' : List StageId} (ordered : g.Ordered order) (ordered' : h.Ordered order')
    {records records' : List StageRecord}
    (described : List.Forall₂ (fun id record => ∃ site, g.Hosts site ∧ site.id = id ∧
      record.Describes site) (order.filter g.executes) records)
    (described' : List.Forall₂ (fun id record => ∃ site, h.Hosts site ∧ site.id = id ∧
      record.Describes site) (order'.filter h.executes) records') :
    records'.Perm records := by
  have stages : (h.stagesAt order').Perm (g.stagesAt order) :=
    ((stagesAt_perm ordered'.perm).trans same.stages.symm).trans (stagesAt_perm ordered.perm).symm
  obtain ⟨middle, described'', perm⟩ := List.perm_comp_forall₂ (stages.filter _)
    (forall₂_stagesAt described)
  have unique {stages : List Stage} {middle records' : List StageRecord}
      (first : List.Forall₂ g.Records stages middle)
      (second : List.Forall₂ h.Records stages records') : records' = middle := by
    induction first generalizing records' with
    | nil =>
      cases second
      rfl
    | cons here _ ih =>
      cases second with
      | cons here' later' => rw [same.record_eq wired here here', ih later']
  exact unique described'' (forall₂_stagesAt described') ▸ perm

/-- What can be written of the graph can be written of a rearranged one. -/
theorem Rearranged.exists_writeStage (same : Rearranged g h) (wired : g.Wired) (wired' : h.Wired)
    {image : Array UInt8} {records : Nat} (written : g.image = .ok (image, records)) {id : StageId}
    (member : id ∈ h.stageIds) :
    ∃ count after, h.writeStage id Writer.withHeader = .ok count after := by
  obtain ⟨site', hosts', rfl⟩ := wired'.site_of_mem member
  obtain ⟨site, hosts, alike⟩ := same.symm.exists_site hosts'
  obtain ⟨order, scheduled, ordered⟩ := wired.exists_schedule
  obtain ⟨_, swept, -⟩ := (image_eq_ok_iff scheduled).mp written
  rw [← writeStage_congr hosts' hosts alike]
  exact eq_ok_of_sweep (fun id _ => (emits_writeStage g id).steady) swept Writer.withHeader site.id
    ((ordered.mem_iff site.id).mpr hosts.mem_stageIds)

/-- The image of a rearranged graph is written if that of the graph is, and holds the same
records. -/
theorem Rearranged.image (same : Rearranged g h) (formed : g.WellFormed) (formed' : h.WellFormed)
    {image : Array UInt8} {records : Nat} (written : g.image = .ok (image, records)) :
    ∃ image', h.image = .ok (image', records) ∧ ∃ contents contents',
      decode image.toList = some contents ∧ decode image'.toList = some contents' ∧
        contents'.records.Perm contents.records := by
  obtain ⟨order, contents, scheduled, decoded, -, -, counted, length, described⟩ :=
    image_decode formed written
  have ordered := formed.wired.ordered_of_schedule scheduled
  obtain ⟨order', scheduled', ordered'⟩ := formed'.wired.exists_schedule
  obtain ⟨count, after, swept⟩ := sweep_eq_ok (fun id _ => (emits_writeStage h id).steady)
    (fun id member => same.exists_writeStage formed.wired formed'.wired written
      ((ordered'.mem_iff id).mp member)) Writer.withHeader
  have wrote := writeStages_ensures formed' (fun id => (ordered'.mem_iff id).mp) Writer.withHeader
  obtain ⟨body, found, rfl, -, described₀, length₀⟩ := wrote.of_ok swept
  have same₀ := same.records_perm formed'.wired ordered ordered' described described₀
  obtain rfl : count = records := by rw [← length₀, ← length, same₀.length_eq]
  obtain ⟨image', finished⟩ : ∃ image', (Writer.withHeader.append body).finish count = .ok image' := by
    have finished := finish_append body count
    cases outcome : (Writer.withHeader.append body).finish count with
    | ok image' => exact ⟨image', rfl⟩
    | error error =>
      rw [outcome, ← counted] at finished
      exact absurd finished.1 (Nat.not_le.mpr contents.recordCount.toNat_lt)
  have written' := (image_eq_ok_iff scheduled').mpr ⟨_, swept, finished⟩
  obtain ⟨order'', contents', scheduled'', decoded', -, -, -, -, described'⟩ :=
    image_decode formed' written'
  have ordered'' := formed'.wired.ordered_of_schedule scheduled''
  exact ⟨image', written', contents, contents', decoded, decoded',
    same.records_perm formed'.wired ordered ordered'' described described'⟩

end Graph

end TensorLowering
