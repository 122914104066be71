import TensorLowering.Proofs.Elements
import TensorLowering.Proofs.Emission

/-!
A copy in one burst moves as many bytes as its input holds, from the first one on. It is a copy
element by element if both sides hold elements of one size.
-/

namespace TensorLowering

open Attempt

namespace AxisMap

variable {strides strides' : AxisMap} {extent along : Axis → Nat} {minimum : Nat} {axes : List Axis}

/-- Each axis has the stride that the axes inside it fill without a gap. -/
def Packs (strides : AxisMap) (extent : Axis → Nat) (minimum : Nat) : List Axis → Prop
  | [] => True
  | axis :: outer => strides.get? axis = some minimum ∧
      strides.Packs extent (minimum * extent axis) outer

/-- The byte offset that coordinates along some axes lead to. -/
def offset (strides : AxisMap) (along : Axis → Nat) (axes : List Axis) : Nat :=
  (axes.map fun axis => along axis * (strides.get? axis).getD 0).sum

theorem Packs.offset_cons {axis : Axis} (packs : strides.Packs extent minimum (axis :: axes)) :
    strides.offset along (axis :: axes) = along axis * minimum + strides.offset along axes := by
  simp [offset, packs.1]

/-- Where nothing is left out, coordinates end within the product of the extents. -/
theorem Packs.offset_add_le (packs : strides.Packs extent minimum axes)
    (inside : ∀ axis ∈ axes, along axis < extent axis) :
    strides.offset along axes + minimum ≤ minimum * (axes.map extent).prod := by
  induction axes generalizing minimum with
  | nil => simp [offset]
  | cons axis outer ih =>
    obtain ⟨here, later⟩ := List.forall_mem_cons.mp inside
    have ends := ih packs.2 later
    have step : (along axis + 1) * minimum ≤ extent axis * minimum := Nat.mul_le_mul_right _ here
    rw [packs.offset_cons, List.map_cons, List.prod_cons, ← Nat.mul_assoc]
    rw [Nat.succ_mul, Nat.mul_comm (extent axis)] at step
    omega

/-- Where nothing is left out, every multiple of the innermost stride is the offset of some
coordinates: they are the digits of a number in the base of the extents. -/
theorem Packs.exists_offset_eq (packs : strides.Packs extent minimum axes) (nodup : axes.Nodup)
    {number : Nat} (small : number < (axes.map extent).prod) :
    ∃ along : Axis → Nat, (∀ axis ∈ axes, along axis < extent axis) ∧
      (∀ axis ∉ axes, along axis = 0) ∧ strides.offset along axes = minimum * number := by
  induction axes generalizing minimum number with
  | nil =>
    have zero : number = 0 := by simpa using small
    exact ⟨fun _ => 0, by simp, by simp, by simp [offset, zero]⟩
  | cons axis outer ih =>
    obtain ⟨fresh, nodup'⟩ := List.nodup_cons.mp nodup
    rw [List.map_cons, List.prod_cons] at small
    have positive : 0 < extent axis := Nat.pos_of_mul_pos_right (Nat.zero_lt_of_lt small)
    obtain ⟨along, inside, outside, reached⟩ := ih packs.2 nodup' (Nat.div_lt_of_lt_mul small)
    refine ⟨Function.update along axis (number % extent axis), fun other member => ?_,
      fun other absent => ?_, ?_⟩
    · by_cases here : other = axis
      · subst here
        simpa using Nat.mod_lt _ positive
      · rw [Function.update_of_ne here]
        exact inside other ((List.mem_cons.mp member).resolve_left here)
    · rw [Function.update_of_ne (List.ne_of_not_mem_cons absent)]
      exact outside other (List.not_mem_of_not_mem_cons absent)
    · have kept : strides.offset (Function.update along axis (number % extent axis)) outer =
          strides.offset along outer := by
        refine congrArg List.sum (List.map_congr_left fun other member => ?_)
        have differs : other ≠ axis := fun same => fresh (same ▸ member)
        rw [Function.update_of_ne differs]
      rw [packs.offset_cons, kept, reached, Function.update_self, Nat.mul_assoc, Nat.mul_comm,
        ← Nat.mul_add, Nat.mod_add_div]

/-- Strides that leave nothing out differ by the size of the elements only. -/
theorem Packs.offset_mul {size size' inner : Nat} (packs : strides.Packs extent (size * inner) axes)
    (packs' : strides'.Packs extent (size' * inner) axes) :
    strides.offset along axes * size' = strides'.offset along axes * size := by
  induction axes generalizing inner with
  | nil => simp [offset]
  | cons axis outer ih =>
    have later := packs.2
    have later' := packs'.2
    rw [Nat.mul_assoc] at later later'
    rw [packs.offset_cons, packs'.offset_cons, Nat.add_mul, Nat.add_mul, ih later later']
    ring

theorem product_eq (m : AxisMap) :
    m.product = (m.axes.map fun axis => (m.get? axis).getD 1).prod := by
  have entries (axes : List Axis) : ((axes.filterMap fun axis => (m.get? axis).map (axis, ·)).map
      Prod.snd).prod = ((axes.filter m.has).map fun axis => (m.get? axis).getD 1).prod := by
    induction axes with
    | nil => rfl
    | cons axis rest ih => cases found : m.get? axis <;> simp [found, has, ih]
  have total (pairs : List (Axis × Nat)) (start : Nat) :
      pairs.foldl (fun total pair => total * pair.2) start = start * (pairs.map Prod.snd).prod := by
    induction pairs generalizing start with
    | nil => simp
    | cons pair rest ih => simp [ih, Nat.mul_assoc]
  rw [product, total, Nat.one_mul]
  exact entries Axis.all

end AxisMap

namespace Tensor

variable {tensor : Tensor}

/-- The bytes that the elements take. -/
def byteCount (tensor : Tensor) : Nat := tensor.elements * tensor.type.size

/-- The elements of the tensor occupy exactly the bytes up to a bound, with no gap. -/
def Fills (tensor : Tensor) (bound : Nat) : Prop :=
  ∃ strides, tensor.strides = some strides ∧
    ⋃ place : tensor.Place, place.bytes strides = Set.Ico 0 bound

theorem denseFrom_packs {stride : Nat} {axes : List Axis} {strides : AxisMap} (nodup : axes.Nodup) :
    (tensor.denseFrom stride axes strides).Packs tensor.extent stride axes ∧
      ∀ axis ∉ axes, (tensor.denseFrom stride axes strides).get? axis = strides.get? axis := by
  induction axes generalizing stride strides with
  | nil => exact ⟨trivial, fun _ _ => rfl⟩
  | cons axis outer ih =>
    obtain ⟨fresh, nodup'⟩ := List.nodup_cons.mp nodup
    obtain ⟨packs, kept⟩ := @ih (stride * tensor.extent axis) (strides.set axis stride) nodup'
    refine ⟨⟨?_, packs⟩, fun other absent => ?_⟩
    · rw [denseFrom, kept axis fresh, AxisMap.get?_set, if_pos rfl]
    · rw [denseFrom, kept other (List.not_mem_of_not_mem_cons absent), AxisMap.get?_set,
        if_neg (List.ne_of_not_mem_cons absent)]

namespace Shaped

theorem perm (shaped : tensor.Shaped) : tensor.extents.axes.Perm tensor.order.axes :=
  (List.perm_ext_iff_of_nodup tensor.extents.nodup_axes shaped.nodup).mpr fun axis => by
    rw [shaped.axes, AxisMap.mem_axes]

theorem packs (shaped : tensor.Shaped) :
    tensor.denseStrides.Packs tensor.extent tensor.type.size tensor.order.axes :=
  (denseFrom_packs shaped.nodup).1

theorem elements_eq (shaped : tensor.Shaped) :
    tensor.elements = (tensor.order.axes.map tensor.extent).prod := by
  rw [elements, AxisMap.product_eq, (shaped.perm.map _).prod_eq]
  rfl

theorem offsetAlong_eq (shaped : tensor.Shaped) (place : tensor.Place) (strides : AxisMap) :
    place.offsetAlong strides tensor.extents.axes = strides.offset place.along tensor.order.axes :=
  (shaped.perm.map _).sum_eq

/-- The elements of a dense tensor follow one another without a gap. -/
theorem fills_of_isDense (shaped : tensor.Shaped) (dense : tensor.isDense) :
    tensor.Fills tensor.byteCount := by
  have packs := shaped.packs
  have positive : 0 < tensor.type.size := by cases tensor.type <;> decide
  refine ⟨tensor.denseStrides, of_decide_eq_true dense, ?_⟩
  ext byte
  simp only [Set.mem_iUnion, Place.bytes, Set.mem_Ico, Nat.zero_le, true_and,
    shaped.offsetAlong_eq, byteCount, shaped.elements_eq]
  rw [Nat.mul_comm]
  constructor
  · intro held
    obtain ⟨place, -, below⟩ := held
    have ends := packs.offset_add_le fun axis _ => place.inside axis
    omega
  · intro below
    obtain ⟨along, inside, outside, reached⟩ :=
      packs.exists_offset_eq shaped.nodup (Nat.div_lt_of_lt_mul below)
    have single (axis : Axis) (absent : axis ∉ tensor.order.axes) : tensor.extent axis = 1 := by
      rw [shaped.axes, AxisMap.has, Bool.not_eq_true, Option.isSome_eq_false_iff,
        Option.isNone_iff_eq_none] at absent
      simp [extent, absent]
    refine ⟨⟨along, fun axis => ?_⟩, ?_⟩
    · by_cases member : axis ∈ tensor.order.axes
      · exact inside axis member
      · rw [outside axis member, single axis member]
        exact Nat.one_pos
    · rw [reached]
      have parts := Nat.div_add_mod byte tensor.type.size
      have rest := Nat.mod_lt byte positive
      omega

end Shaped

end Tensor

theorem CopyMode.eq_linear_of_code {mode : CopyMode} (same : mode.code = linear.code) :
    mode = linear := by
  cases mode with
  | linear => rfl
  | strided => cases same

/-- A copy that moves its bytes in one burst has dense tensors. -/
theorem Graph.Site.ModeChosen.isDense {site : Site} (chosen : site.ModeChosen)
    {demands : CopyDemands} (linear : site.stage.operation = .copy demands (some .linear)) :
    site.input.isDense ∧ site.output.isDense := by
  rw [ModeChosen, linear] at chosen
  simp only [Operation.decideMode, CopyMode.choose, Operation.copy.injEq, true_and,
    Option.some.injEq] at chosen
  split at chosen
  · rename_i dense
    simpa using dense
  · cases chosen

namespace Graph

variable {g : Graph}

theorem Site.extents_eq_of_copy {site : Site} (hosts : g.Hosts site) {demands : CopyDemands}
    {mode : Option CopyMode} (copy : site.stage.operation = .copy demands mode)
    (checked : g.checkStageFinal site.id = .ok ()) : site.input.extents = site.output.extents := by
  simp only [checkStageFinal, hosts.site_eq, bind_eq_ok, Except.ok.injEq, exists_eq_left', copy]
    at checked
  obtain ⟨_, same, -⟩ := checked
  unfold Site.checkSameExtents Site.ensure at same
  split at same
  · rename_i holds
    exact of_decide_eq_true holds
  · cases same

/-- One burst of so many bytes, from the first byte of the input to the first byte of the output,
moves every element to its place. -/
structure Site.MovesInBurst (site : Site) (byteCount : Nat) : Prop where
  input : byteCount = site.input.byteCount
  output : byteCount = site.output.byteCount
  fillsInput : site.input.Fills byteCount
  fillsOutput : site.output.Fills byteCount
  offsets : ∀ strides strides', site.input.strides = some strides →
    site.output.strides = some strides' →
      ∀ (place : site.input.Place) (place' : site.output.Place), place.along = place'.along →
        place.offsetAlong strides site.input.extents.axes =
          place'.offsetAlong strides' site.output.extents.axes

/-- What is true of a copy in one burst whatever the types of its tensors: both sides are dense and
in the same order, and the burst is as long as the input. -/
structure Site.Bursts (site : Site) (byteCount : Nat) : Prop where
  input : byteCount = site.input.byteCount
  elements : site.output.elements = site.input.elements
  fillsInput : site.input.Fills site.input.byteCount
  fillsOutput : site.output.Fills site.output.byteCount
  offsets : ∀ strides strides', site.input.strides = some strides →
    site.output.strides = some strides' →
      ∀ (place : site.input.Place) (place' : site.output.Place), place.along = place'.along →
        place.offsetAlong strides site.input.extents.axes * site.output.type.size =
          place'.offsetAlong strides' site.output.extents.axes * site.input.type.size

theorem Site.Bursts.movesInBurst_iff {site : Site} {byteCount : Nat}
    (bursts : site.Bursts byteCount) :
    site.MovesInBurst byteCount ↔
      site.input.type.size = site.output.type.size ∨ site.input.elements = 0 := by
  have counts : site.input.byteCount = site.output.byteCount ↔
      site.input.type.size = site.output.type.size ∨ site.input.elements = 0 := by
    rw [Tensor.byteCount, Tensor.byteCount, bursts.elements]
    exact mul_eq_mul_left_iff
  refine ⟨fun moves => counts.mp (moves.input.symm.trans moves.output), fun sizes => ?_⟩
  have same := counts.mpr sizes
  refine ⟨bursts.input, bursts.input.trans same, bursts.input ▸ bursts.fillsInput,
    (bursts.input.trans same) ▸ bursts.fillsOutput, ?_⟩
  intro strides strides' atInput atOutput place place' alike
  have proportional := bursts.offsets strides strides' atInput atOutput place place' alike
  rcases sizes with size | none
  · have positive : 0 < site.output.type.size := by cases site.output.type <;> decide
    rw [size] at proportional
    exact Nat.eq_of_mul_eq_mul_right positive proportional
  · -- A tensor without elements has no place.
    obtain ⟨filled, atFilled, held⟩ := bursts.fillsInput
    have inside : place.offsetAlong filled site.input.extents.axes ∈ place.bytes filled := by
      have positive : 0 < site.input.type.size := by cases site.input.type <;> decide
      exact ⟨le_rfl, Nat.lt_add_of_pos_right positive⟩
    have bounded : place.offsetAlong filled site.input.extents.axes ∈
        Set.Ico 0 site.input.byteCount := held ▸ Set.mem_iUnion.mpr ⟨place, inside⟩
    simp [Tensor.byteCount, none] at bounded

theorem Hosts.bursts {site : Site} (hosts : g.Hosts site) (formed : g.WellFormed)
    (aligned : g.Aligned) (chosen : site.ModeChosen) {demands : CopyDemands}
    (linear : site.stage.operation = .copy demands (some .linear))
    (checked : g.checkStageFinal site.id = .ok ()) : site.Bursts site.input.byteCount := by
  obtain ⟨dense, dense'⟩ := chosen.isDense linear
  have shaped := formed.shaped hosts.input
  have shaped' := formed.shaped hosts.output
  have extents := Site.extents_eq_of_copy hosts linear checked
  have extent : site.output.extent = site.input.extent := by
    funext axis
    rw [Tensor.extent, Tensor.extent, extents]
  have order := aligned site hosts
  refine ⟨rfl, by rw [Tensor.elements, Tensor.elements, extents], shaped.fills_of_isDense dense,
    shaped'.fills_of_isDense dense', ?_⟩
  intro strides strides' atInput atOutput place place' alike
  obtain rfl : strides = site.input.denseStrides :=
    Option.some.inj (atInput.symm.trans (of_decide_eq_true dense))
  obtain rfl : strides' = site.output.denseStrides :=
    Option.some.inj (atOutput.symm.trans (of_decide_eq_true dense'))
  have packs := shaped.packs
  have packs' := shaped'.packs
  rw [extent, order] at packs'
  rw [← Nat.mul_one site.input.type.size] at packs
  rw [← Nat.mul_one site.output.type.size] at packs'
  rw [shaped.offsetAlong_eq, shaped'.offsetAlong_eq, order, ← alike]
  exact packs.offset_mul packs'

/-- A copy that was lowered to one burst has dense tensors in the same order, and the burst is as
long as its input. It moves every element to its place exactly if both tensors have elements of one
size, or no elements: a copy takes any two element types. -/
theorem Reachable.linear_bursts (reachable : g.Reachable) {settings : Settings}
    {compiled : Compiled} {after : Graph} (succeeded : compile settings g = .ok compiled after) :
    ∃ order contents, after.schedule = .ok order ∧
      Image.decode compiled.image.toList = some contents ∧
      List.Forall₂ (fun id record => ∃ site, after.Hosts site ∧ site.id = id ∧
          record.Describes site ∧ ∀ byteCount, record.params = .copy CopyMode.linear.code byteCount →
            site.Bursts byteCount.toNat ∧
            (site.MovesInBurst byteCount.toNat ↔
              site.input.type.size = site.output.type.size ∨ site.input.elements = 0))
        (order.filter after.executes) contents.records := by
  obtain ⟨_, _, lowered⟩ := reachable.wellFormed.exists_lowered succeeded
  obtain ⟨order, contents, scheduled, decoded, -, -, -, -, describe⟩ :=
    image_decode lowered.formed lowered.written
  refine ⟨order, contents, scheduled, decoded, describe.imp fun id record found => ?_⟩
  obtain ⟨site, hosts, same, describes⟩ := found
  refine ⟨site, hosts, same, describes, fun byteCount params => ?_⟩
  have described := describes.params
  have bursts : site.Bursts byteCount.toNat := by
    unfold Image.RecordParams.Describes at described
    rw [params] at described
    cases operation : site.stage.operation with
    | copy demands mode =>
      simp only [operation, Image.RecordParams.copy.injEq] at described
      obtain ⟨mode', byteCount', rfl, ⟨code, rfl⟩, counted⟩ := described
      obtain rfl := CopyMode.eq_linear_of_code code.symm
      have checked := ((checkFinal_eq_ok_iff lowered.formed.wired).mp lowered.checked).1 site hosts
      rw [counted]
      exact hosts.bursts lowered.formed lowered.aligned_after (lowered.chosen site hosts) operation
        checked
    | expand offset => simp [operation] at described
    | power given => simp [operation] at described
  exact ⟨bursts, bursts.movesInBurst_iff⟩

/-- Four bytes that are copied into a tensor of four-byte numbers. -/
def castRow : Graph where
  name := "row"
  tensors := #[
    { Tensor.fresh "given" .u8 { w := some 4 } .input with consumers := [⟨0⟩] },
    { Tensor.fresh "taken" .fp32 { w := some 4 } .intermediate with producer := some ⟨0⟩ }]
  stages := #[⟨"copy", none, [⟨0⟩], [⟨1⟩], .copy {} none⟩]

theorem reachable_castRow : castRow.Reachable := by
  let given := ((empty "row").addTensor "given" .u8 { w := some 4 } .input).2
  let taken := (given.addTensor "taken" .fp32 { w := some 4 } .intermediate).2
  have tensors : taken.Reachable :=
    ((Reachable.empty "row").addTensor _ _ _ (by decide)).addTensor _ _ _ (by decide)
  have copies : taken.addCopy "copy" none [⟨0⟩] [⟨1⟩] {} = .ok (⟨0⟩, castRow) := by
    with_unfolding_all rfl
  exact tensors.addCopy copies

/-- The row is lowered to one burst of four bytes. -/
theorem compile_castRow :
    ∃ compiled after contents record, compile {} castRow = .ok compiled after ∧
      Image.decode compiled.image.toList = some contents ∧ contents.records = [record] ∧
        record.params = .copy CopyMode.linear.code 4 := by
  have params : ((compile {}).result? castRow).bind (fun found =>
      (Image.decode found.1.image.toList).map (·.records.map (·.params))) =
        some [.copy CopyMode.linear.code 4] := by
    decide +kernel
  obtain ⟨found, ran, decodes⟩ := Option.bind_eq_some_iff.mp params
  obtain ⟨contents, decoded, listed⟩ := Option.map_eq_some_iff.mp decodes
  obtain ⟨record, one, params⟩ := List.map_eq_singleton_iff.mp listed
  exact ⟨found.1, found.2, contents, record, result?_eq_some_iff.mp ran, decoded, one, params⟩

theorem linear_bursts_castRow :
    ∃ compiled after site, compile {} castRow = .ok compiled after ∧ after.Hosts site ∧
      site.Bursts 4 := by
  obtain ⟨compiled, after, contents, record, succeeded, decoded, one, params⟩ := compile_castRow
  obtain ⟨order, contents', -, decoded', bursts⟩ := reachable_castRow.linear_bursts succeeded
  obtain rfl := Option.some.inj (decoded.symm.trans decoded')
  rw [one] at bursts
  obtain ⟨_, _, ⟨site, hosts, -, -, here⟩, -, -⟩ := List.forall₂_cons_right_iff.mp bursts
  exact ⟨compiled, after, site, succeeded, hosts, (here 4 params).1⟩

/-- Four bytes are not enough for four numbers: the burst leaves most of its output unwritten. -/
theorem not_movesInBurst_castRow :
    ∃ compiled after contents record site, castRow.Reachable ∧
      compile {} castRow = .ok compiled after ∧
      Image.decode compiled.image.toList = some contents ∧ record ∈ contents.records ∧
      after.Hosts site ∧ record.Describes site ∧
      record.params = .copy CopyMode.linear.code 4 ∧ ¬site.MovesInBurst 4 := by
  obtain ⟨compiled, after, contents, record, succeeded, decoded, one, params⟩ := compile_castRow
  obtain ⟨_, _, lowered⟩ := reachable_castRow.wellFormed.exists_lowered succeeded
  obtain ⟨order, contents', -, decoded', -, -, -, -, describe⟩ :=
    image_decode lowered.formed lowered.written
  obtain rfl := Option.some.inj (decoded.symm.trans decoded')
  rw [one] at describe
  obtain ⟨_, _, ⟨site, hosts, -, describes⟩, -, -⟩ := List.forall₂_cons_right_iff.mp describe
  refine ⟨compiled, after, contents, record, site, reachable_castRow, succeeded, decoded,
    by simp [one], hosts, describes, params, fun moves => ?_⟩
  obtain ⟨stage, atStage, -, outputs, -⟩ := stage_of_undecided_eq lowered.built hosts.stage
  obtain ⟨tensor, atOutput, alike⟩ := tensor_of_undecided_eq lowered.built hosts.output
  have only : stage.outputs = [⟨1⟩] := by
    have first : site.id.index < 1 := (Array.getElem?_eq_some_iff.mp atStage).1
    obtain ⟨⟨index⟩, rest⟩ := site
    obtain rfl : index = 0 := by simpa using first
    cases atStage
    rfl
  have written : site.outputId = ⟨1⟩ := by
    rw [only, hosts.outputs] at outputs
    exact (List.cons.inj outputs).1.symm
  rw [written] at atOutput
  cases atOutput
  have type : ElementType.fp32 = site.output.type := (congrArg Tensor.type alike :)
  have extents : ({ w := some 4 } : AxisMap) = site.output.extents :=
    (congrArg Tensor.extents alike :)
  have four : 4 = ({ w := some 4 } : AxisMap).product * ElementType.fp32.size := by
    rw [type, extents]
    exact moves.output
  exact absurd four (by decide)

end Graph

end TensorLowering
