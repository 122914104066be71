import TensorLowering.Proofs.LowersTo
import TensorLowering.Proofs.Integrity

namespace TensorLowering

open TensorLowering.Graph Image

open Relation (ReflTransGen)

namespace Graph

/-- Wires stages one after another. The first that is refused ends it. -/
def insertAll (g : Graph) : List Stage → Except LoweringError Graph
  | [] => .ok g
  | stage :: rest => do
    let (_, after) ← g.insertStage stage
    after.insertAll rest

variable {g h built : Graph} {stage first second : Stage}

theorem insertAll_cons_eq_ok_iff {rest : List Stage} :
    g.insertAll (stage :: rest) = .ok built ↔
      g.Accepts stage ∧ (g.connect stage).insertAll rest = .ok built := by
  simp only [insertAll, bind_eq_ok, Prod.exists, insertStage_eq_ok_iff]
  constructor
  · rintro ⟨id, after, ⟨accepts, rfl, rfl⟩, inserted⟩
    exact ⟨accepts, inserted⟩
  · rintro ⟨accepts, inserted⟩
    exact ⟨_, _, ⟨accepts, rfl, rfl⟩, inserted⟩

theorem WellFormed.connect (formed : g.WellFormed) (accepts : g.Accepts stage) :
    (g.connect stage).WellFormed :=
  formed.insertStage (insertStage_eq_ok_iff.mpr ⟨accepts, rfl, rfl⟩)

/-- What makes a stage acceptable, without the handles of the stages that are there already. -/
structure Welcomes (g : Graph) (stage : Stage) : Prop where
  known : ∀ id ∈ stage.inputs ++ stage.outputs, id.index < g.tensors.size
  arity : stage.inputs.length = stage.kind.arity.inputs ∧
    stage.outputs.length = stage.kind.arity.outputs
  notGiven : ∀ id ∈ stage.outputs, ∀ tensor, g.tensors[id.index]? = some tensor →
    tensor.role ≠ .input
  apart : ∀ found ∈ g.stages, ∀ id ∈ stage.outputs, id ∉ found.outputs
  forward : ∃ depth : TensorId → Nat, ∀ found, found ∈ g.stages ∨ found = stage →
    ∀ input ∈ found.inputs, ∀ output ∈ found.outputs, depth input < depth output

theorem Wired.exists_reader (wired : g.Wired) {id next : TensorId}
    (follows : next ∈ g.successors id) :
    ∃ found ∈ g.stages, id ∈ found.inputs ∧ next ∈ found.outputs := by
  by_cases known : id.index < g.tensors.size
  · obtain ⟨reader, found, atReader, reads, writes⟩ := (mem_successors wired known).mp follows
    exact ⟨found, mem_stages_iff.mpr ⟨reader, atReader⟩, reads, writes⟩
  · simp [successors, known] at follows

theorem Wired.accepts_iff_welcomes (wired : g.Wired) : g.Accepts stage ↔ g.Welcomes stage := by
  constructor
  · intro accepts
    refine ⟨accepts.known, accepts.arity,
      fun id member tensor atId => (accepts.free id member tensor atId).2.1, ?_, ?_⟩
    · intro found member id written listed
      obtain ⟨writer, atWriter⟩ := mem_stages_iff.mp member
      obtain ⟨tensor, atId⟩ := wired.exists_tensor atWriter (List.mem_append_right _ listed)
      have produced := (wired.writer atId).mpr ⟨found, atWriter, listed⟩
      rw [(accepts.free id written tensor atId).1] at produced
      cases produced
    · obtain ⟨depth, deeper⟩ := accepts.exists_depth wired
      refine ⟨depth, ?_⟩
      rintro found (member | rfl)
      · obtain ⟨other, atOther⟩ := mem_stages_iff.mp member
        exact deeper (getElem?_stages_connect.mpr (.inl atOther))
      · exact deeper (getElem?_stages_connect.mpr (.inr ⟨rfl, rfl⟩))
  · intro welcomes
    obtain ⟨depth, deeper⟩ := welcomes.forward
    obtain ⟨output, outputs⟩ : ∃ output, stage.outputs = [output] :=
      List.length_eq_one_iff.mp (by rw [welcomes.arity.2, Kind.arity_eq])
    refine ⟨welcomes.known, welcomes.arity, fun id member tensor atId => ⟨?_,
      welcomes.notGiven id member tensor atId, fun read => ?_⟩, by simp [outputs], ?_⟩
    · refine Option.eq_none_iff_forall_ne_some.mpr fun writer produced => ?_
      obtain ⟨found, atWriter, listed⟩ := (wired.writer atId).mp produced
      exact welcomes.apart found (mem_stages_iff.mpr ⟨writer, atWriter⟩) id member listed
    · exact Nat.lt_irrefl _ (deeper stage (.inr rfl) id read id member)
    · -- a path from an output to an input would go down in depth, but every step goes up
      refine Option.eq_none_iff_forall_ne_some.mpr fun reached found => ?_
      obtain ⟨read, source, written, reaches⟩ := reaches_of_search_eq_some found
      have rises : ∀ {last : TensorId},
          ReflTransGen (fun id next => next ∈ g.successors id) source last →
            depth source ≤ depth last := by
        intro last reaches
        induction reaches with
        | refl => exact le_rfl
        | tail _ follows ih =>
          obtain ⟨between, member, reads, writes⟩ := wired.exists_reader follows
          exact ih.trans (deeper between (.inl member) _ reads _ writes).le
      exact Nat.not_le.mpr (deeper stage (.inr rfl) reached read source written) (rises reaches)

/-! ### Two insertions -/

theorem unwired_connect (g : Graph) (stage : Stage) :
    (g.connect stage).tensors.map Tensor.unwired = g.tensors.map Tensor.unwired := by
  refine Array.ext_getElem? fun place => ?_
  simp only [Array.getElem?_map]
  rw [tensors_connect g stage ⟨place⟩, Option.map_map]
  rfl

theorem Rearranged.connect (same : Rearranged g h) (stage : Stage) :
    Rearranged (g.connect stage) (h.connect stage) where
  tensors := by rw [unwired_connect, unwired_connect, same.tensors]
  stages := by
    rw [stages_connect, stages_connect, Array.toList_push, Array.toList_push]
    exact same.stages.append_right [stage]

theorem rearranged_connect_connect (g : Graph) (first second : Stage) :
    Rearranged ((g.connect first).connect second) ((g.connect second).connect first) where
  tensors := by simp only [unwired_connect]
  stages := by
    simp only [stages_connect, Array.toList_push, List.append_assoc, List.singleton_append]
    exact (List.Perm.swap second first []).append_left _

theorem Welcomes.rearranged (welcomes : g.Welcomes stage) (same : Rearranged g h) :
    h.Welcomes stage := by
  have members (found : Stage) : found ∈ h.stages ↔ found ∈ g.stages := by
    rw [← Array.mem_toList_iff, ← Array.mem_toList_iff, same.stages.mem_iff]
  refine ⟨same.size_eq ▸ welcomes.known, welcomes.arity, fun id written tensor atId => ?_, ?_, ?_⟩
  · obtain ⟨tensor', atId', alike⟩ := same.symm.exists_tensor atId
    have role : tensor'.role = tensor.role := (congrArg Tensor.role alike :)
    exact role ▸ welcomes.notGiven id written tensor' atId'
  · simpa only [members] using welcomes.apart
  · simpa only [members] using welcomes.forward

theorem notGiven_connect_iff {id : TensorId} :
    (∀ tensor, (g.connect stage).tensors[id.index]? = some tensor → tensor.role ≠ .input) ↔
      ∀ tensor, g.tensors[id.index]? = some tensor → tensor.role ≠ .input := by
  rw [tensors_connect]
  cases g.tensors[id.index]? <;> simp

theorem mem_stages_connect_iff {found : Stage} :
    found ∈ (g.connect stage).stages ↔ found ∈ g.stages ∨ found = stage := by
  rw [stages_connect, Array.mem_push]

/-- Stages that are accepted one after the other are accepted the other way round. -/
theorem Welcomes.swap (welcomes : g.Welcomes first) (welcomes' : (g.connect first).Welcomes second) :
    g.Welcomes second ∧ (g.connect second).Welcomes first := by
  obtain ⟨known, arity, notGiven, apart, depth, deeper⟩ := welcomes'
  simp only [mem_stages_connect_iff, size_tensors_connect, notGiven_connect_iff] at *
  refine ⟨⟨known, arity, notGiven, fun found member => apart found (.inl member), depth,
    fun found member => deeper found (member.imp_left .inl)⟩, ?_⟩
  refine ⟨by simpa only [size_tensors_connect] using welcomes.known, welcomes.arity, ?_, ?_, depth, ?_⟩
  · simpa only [notGiven_connect_iff] using welcomes.notGiven
  · intro found member id written listed
    rcases mem_stages_connect_iff.mp member with old | rfl
    · exact welcomes.apart found old id written listed
    · exact apart first (.inr rfl) id listed written
  · intro found member
    refine deeper found ?_
    rw [mem_stages_connect_iff, or_right_comm] at member
    exact member

/-! ### All insertions -/

/-- On a rearranged graph the same stages are accepted. -/
theorem Rearranged.insertAll (same : Rearranged g h) (formed : g.WellFormed)
    (formed' : h.WellFormed) {stages : List Stage} (inserted : g.insertAll stages = .ok built) :
    ∃ built', h.insertAll stages = .ok built' ∧ Rearranged built built' ∧ built.WellFormed ∧
      built'.WellFormed := by
  induction stages generalizing g h with
  | nil =>
    cases inserted
    exact ⟨h, rfl, same, formed, formed'⟩
  | cons stage rest ih =>
    obtain ⟨accepts, inserted⟩ := insertAll_cons_eq_ok_iff.mp inserted
    have accepts' : h.Accepts stage := formed'.wired.accepts_iff_welcomes.mpr
      ((formed.wired.accepts_iff_welcomes.mp accepts).rearranged same)
    obtain ⟨built', inserted', reached⟩ :=
      ih (same.connect stage) (formed.connect accepts) (formed'.connect accepts') inserted
    exact ⟨built', insertAll_cons_eq_ok_iff.mpr ⟨accepts', inserted'⟩, reached⟩

/-- Stages that are accepted in one order are accepted in any other, and the graphs are
rearrangements of each other. -/
theorem insertAll_perm {stages stages' : List Stage} (perm : stages.Perm stages')
    (formed : g.WellFormed) (inserted : g.insertAll stages = .ok built) :
    ∃ built', g.insertAll stages' = .ok built' ∧ Rearranged built built' ∧ built.WellFormed ∧
      built'.WellFormed := by
  induction perm generalizing g built with
  | nil => exact (Rearranged.refl g).insertAll formed formed inserted
  | cons stage _ ih =>
    obtain ⟨accepts, inserted⟩ := insertAll_cons_eq_ok_iff.mp inserted
    obtain ⟨built', inserted', reached⟩ := ih (formed.connect accepts) inserted
    exact ⟨built', insertAll_cons_eq_ok_iff.mpr ⟨accepts, inserted'⟩, reached⟩
  | swap second first rest =>
    obtain ⟨accepts, inserted⟩ := insertAll_cons_eq_ok_iff.mp inserted
    obtain ⟨accepts', inserted⟩ := insertAll_cons_eq_ok_iff.mp inserted
    have formed₁ := formed.connect accepts
    obtain ⟨welcomes, welcomes'⟩ := (formed.wired.accepts_iff_welcomes.mp accepts).swap
      (formed₁.wired.accepts_iff_welcomes.mp accepts')
    have early := formed.wired.accepts_iff_welcomes.mpr welcomes
    have formed₂ := formed.connect early
    have late := formed₂.wired.accepts_iff_welcomes.mpr welcomes'
    obtain ⟨built', inserted', reached⟩ := (rearranged_connect_connect g first second).insertAll
      (formed₁.connect accepts') (formed₂.connect late) inserted
    exact ⟨built', insertAll_cons_eq_ok_iff.mpr
      ⟨early, insertAll_cons_eq_ok_iff.mpr ⟨late, inserted'⟩⟩, reached⟩
  | trans _ _ ih ih' =>
    obtain ⟨middle, inserted', same, formed₁, -⟩ := ih formed inserted
    obtain ⟨built', inserted'', same', -, formed₂⟩ := ih' formed inserted'
    exact ⟨built', inserted'', same.trans same', formed₁, formed₂⟩

/-! ### Lowering -/

theorem LowersTo.of_rearranged {settings : Settings} {lowered : Graph}
    (lowers : LowersTo settings g lowered) (same : Rearranged g h) :
    LowersTo settings h lowered := by
  refine lowers.transfer (same.undecided.symm.trans lowers.network) ?_ ?_ ?_ ?_
  · exact same.order_eq ▸ lowers.orders
  · have scales := lowers.scales
    unfold ScalesTo at scales ⊢
    rwa [same.scale_eq] at scales
  · rw [same.requirement_eq]
  · exact same.requirement_eq ▸ lowers.rounds

/-- The order in which stages are inserted does not matter. Stages that are accepted in one order
are accepted in any other, the two graphs are both lowered or both refused, and if they are lowered,
then the same is decided about every tensor and the images hold the same records. -/
theorem Reachable.insertion_order (reachable : g.Reachable) {stages stages' : List Stage}
    (perm : stages.Perm stages') (inserted : g.insertAll stages = .ok built) :
    ∃ built', g.insertAll stages' = .ok built' ∧ ∀ settings : Settings,
      (∀ id scale, settings.inputScales.get? id = some scale → scale.isNaN = false) →
      ((∃ compiled after, compile settings built = .ok compiled after) ↔
        ∃ compiled' after', compile settings built' = .ok compiled' after') ∧
      ∀ {compiled compiled' : Compiled} {after after' : Graph},
        compile settings built = .ok compiled after →
        compile settings built' = .ok compiled' after' →
          after'.decisions = after.decisions ∧ compiled'.records = compiled.records ∧
          ∃ contents contents', decode compiled.image.toList = some contents ∧
            decode compiled'.image.toList = some contents' ∧
            contents'.records.Perm contents.records := by
  obtain ⟨built', inserted', same, formed, formed'⟩ :=
    insertAll_perm perm reachable.wellFormed inserted
  refine ⟨built', inserted', fun settings numbers => ⟨?_, ?_⟩⟩
  · rw [compile_eq_ok_iff formed (givenScale_beq_self numbers),
      compile_eq_ok_iff formed' (givenScale_beq_self numbers)]
    exact exists_congr fun lowered =>
      ⟨fun lowers => lowers.of_rearranged same, fun lowers => lowers.of_rearranged same.symm⟩
  · intro compiled compiled' after after' ran ran'
    obtain ⟨-, lowers, written⟩ :=
      (compile_lowersTo formed (givenScale_beq_self numbers)).of_ok ran
    obtain ⟨-, lowers', written'⟩ :=
      (compile_lowersTo formed' (givenScale_beq_self numbers)).of_ok ran'
    have reached := lowers.rearranged (lowers'.of_rearranged same.symm)
    obtain ⟨image, again, contents, contents', decoded, decoded', records⟩ :=
      reached.image lowers.formed lowers'.formed written
    rw [written', Except.ok.injEq, Prod.mk.injEq] at again
    obtain ⟨rfl, count⟩ := again
    exact ⟨reached.decisions_eq.symm, count, contents, contents', decoded, decoded', records⟩

/-- The row of four bytes and the tensors that are made from it, before any stage is wired. -/
def bareRow : Graph where
  name := "row"
  tensors := #[
    .fresh "given" .u8 { w := some 4 } .input,
    .fresh "copied" .u8 { w := some 4 } .intermediate,
    .fresh "wide" .u8 { w := some 6 } .intermediate]
  stages := #[]

theorem reachable_bareRow : bareRow.Reachable :=
  (((Reachable.empty "row").addTensor "given" .u8 { w := some 4 } (by decide)).addTensor
    "copied" .u8 { w := some 4 } (by decide)).addTensor "wide" .u8 { w := some 6 } (by decide)

/-- The stages of the spread row can be inserted the other way round, and the row is still
lowered. -/
theorem insertion_order_bareRow :
    ∃ built compiled after, bareRow.insertAll spreadRow.stages.toList.reverse = .ok built ∧
      compile {} built = .ok compiled after ∧ compiled.records = 1 := by
  have inserted : bareRow.insertAll spreadRow.stages.toList = .ok spreadRow := by
    with_unfolding_all rfl
  obtain ⟨built, inserted', lowered⟩ := reachable_bareRow.insertion_order
    (List.reverse_perm spreadRow.stages.toList).symm inserted
  obtain ⟨iff, same⟩ := lowered {} fun _ _ given => by cases given
  obtain ⟨compiled, after, ran, -, one⟩ := compile_spreadRow
  obtain ⟨compiled', after', ran'⟩ := iff.mp ⟨compiled, after, ran⟩
  exact ⟨built, compiled', after', inserted', ran', (same ran ran').2.1.trans one⟩

end Graph

end TensorLowering
