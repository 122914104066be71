import TensorLowering.Proofs.Failures
import TensorLowering.Proofs.Reachable

/-!
The check of the structure asks again for what wiring has made sure of. All that it can still find is
a tensor that nobody writes, or an input of the network that nobody reads.
-/

namespace TensorLowering

namespace Graph

/-- A stage of the graph reads the tensor. -/
def IsRead (g : Graph) (id : TensorId) : Prop :=
  ∃ (reader : StageId) (stage : Stage), g.stages[reader.index]? = some stage ∧ id ∈ stage.inputs

/-- A stage of the graph writes the tensor. -/
def IsWritten (g : Graph) (id : TensorId) : Prop :=
  ∃ (writer : StageId) (stage : Stage), g.stages[writer.index]? = some stage ∧ id ∈ stage.outputs

/-- What is given to the network has to be read, and every other tensor has to be written. -/
def FitsRole (g : Graph) (id : TensorId) (tensor : Tensor) : Prop :=
  (tensor.role = .input → g.IsRead id) ∧ (tensor.role ≠ .input → g.IsWritten id)

variable {g : Graph} {id : TensorId} {tensor : Tensor}

theorem Wired.isRead_iff (wired : g.Wired) (atId : g.tensors[id.index]? = some tensor) :
    g.IsRead id ↔ tensor.consumers ≠ [] := by
  have readers : g.IsRead id ↔ ∃ reader, reader ∈ tensor.consumers :=
    exists_congr fun reader => (wired.readers atId).symm
  exact readers.trans ⟨fun ⟨_, member⟩ => List.ne_nil_of_mem member, List.exists_mem_of_ne_nil _⟩

theorem Wired.isWritten_iff (wired : g.Wired) (atId : g.tensors[id.index]? = some tensor) :
    g.IsWritten id ↔ tensor.producer ≠ none := by
  rw [Option.ne_none_iff_exists']
  exact exists_congr fun writer => (wired.writer atId).symm

theorem Wired.fitsRole_iff (wired : g.Wired) (atId : g.tensors[id.index]? = some tensor) :
    g.FitsRole id tensor ↔ g.checkTensor id = .ok () := by
  rw [checkTensor_eq_ok_iff wired atId, FitsRole, wired.isRead_iff atId, wired.isWritten_iff atId]
  by_cases role : tensor.role = .input <;> simp [role]

/-- The tensors are gone through in the order of their handles. -/
theorem mem_of_tensorIds_eq {before after : List TensorId}
    (split : g.tensorIds = before ++ id :: after) {earlier : TensorId}
    (less : earlier.index < id.index) : earlier ∈ before := by
  have sorted : g.tensorIds.Pairwise (·.index < ·.index) := by
    simpa [tensorIds, List.pairwise_map] using List.pairwise_lt_range
  have known : earlier ∈ g.tensorIds := by
    have bound : id.index < g.tensors.size := mem_tensorIds.mp (by simp [split])
    exact mem_tensorIds.mpr (less.trans bound)
  rw [split] at sorted known
  obtain ⟨-, later, -⟩ := List.pairwise_append.mp sorted
  rcases List.mem_append.mp known with found | found
  · exact found
  · rcases List.mem_cons.mp found with rfl | found
    · exact absurd less (Nat.lt_irrefl _)
    · exact absurd ((List.pairwise_cons.mp later).1 earlier found) (Nat.lt_asymm less)

/-- The check of the structure passes if every tensor fits its role. Otherwise it names the first
tensor that does not: as one without a writer if it is no network input and somebody reads it, and as
one that is left over if not. -/
theorem Reachable.validate_exact (reachable : g.Reachable) :
    (g.validate = .ok () ↔ ∀ (id : TensorId) (tensor : Tensor),
      g.tensors[id.index]? = some tensor → g.FitsRole id tensor) ∧
    ∀ error, g.validate = .error error → ∃ (id : TensorId) (tensor : Tensor),
      g.tensors[id.index]? = some tensor ∧ ¬g.FitsRole id tensor ∧
      (∀ (earlier : TensorId) (other : Tensor), earlier.index < id.index →
        g.tensors[earlier.index]? = some other → g.FitsRole earlier other) ∧
      (tensor.role ≠ .input ∧ g.IsRead id → error = .contract (.unproduced tensor.name)) ∧
      (¬(tensor.role ≠ .input ∧ g.IsRead id) → error = .contract (.orphan tensor.name)) := by
  have wired := reachable.wellFormed.wired
  rw [validate_eq wired]
  constructor
  · rw [forM_eq_ok_iff]
    constructor
    · intro all id tensor atId
      have known := mem_tensorIds.mpr (Array.getElem?_eq_some_iff.mp atId).1
      exact (wired.fitsRole_iff atId).mpr (all id known)
    · intro all id member
      have atId := Array.getElem?_eq_getElem (mem_tensorIds.mp member)
      exact (wired.fitsRole_iff atId).mp (all id _ atId)
  · intro error failed
    obtain ⟨before, id, after, split, passed, failed⟩ := forM_eq_error_iff.mp failed
    have known : id.index < g.tensors.size := mem_tensorIds.mp (by simp [split])
    have atId := Array.getElem?_eq_getElem known
    refine ⟨id, _, atId, ?_, fun earlier other less atEarlier => ?_, fun waited => ?_,
      fun unwaited => ?_⟩
    · rw [wired.fitsRole_iff atId, failed]
      nofun
    · exact (wired.fitsRole_iff atEarlier).mpr (passed earlier (mem_of_tensorIds_eq split less))
    · obtain ⟨-, rfl⟩ := (checkTensor_eq_error_iff wired atId).mp failed
      rw [wired.isRead_iff atId] at waited
      rw [if_pos waited]
    · obtain ⟨-, rfl⟩ := (checkTensor_eq_error_iff wired atId).mp failed
      rw [wired.isRead_iff atId] at unwaited
      rw [if_neg unwaited]

/-- A row that is copied before anything writes it, next to a tensor that is left over. -/
def lateRow : Graph where
  name := "row"
  tensors := #[
    { Tensor.fresh "late" .u8 { w := some 4 } .intermediate with consumers := [⟨0⟩] },
    { Tensor.fresh "copied" .u8 { w := some 4 } .intermediate with producer := some ⟨0⟩ },
    Tensor.fresh "spare" .u8 { w := some 4 } .input]
  stages := #[⟨"copy", none, [⟨0⟩], [⟨1⟩], .copy {} none⟩]

theorem reachable_lateRow : lateRow.Reachable := by
  let late := ((empty "row").addTensor "late" .u8 { w := some 4 } .intermediate).2
  let copied := (late.addTensor "copied" .u8 { w := some 4 } .intermediate).2
  let spare := (copied.addTensor "spare" .u8 { w := some 4 } .input).2
  have tensors : spare.Reachable :=
    (((Reachable.empty "row").addTensor _ _ _ (by decide)).addTensor _ _ _ (by decide)).addTensor
      _ _ _ (by decide)
  have copies : spare.addCopy "copy" none [⟨0⟩] [⟨1⟩] {} = .ok (⟨0⟩, lateRow) := by
    with_unfolding_all rfl
  exact tensors.addCopy copies

/-- Of the two tensors at fault the first is named: somebody waits for it. -/
theorem validate_lateRow :
    lateRow.Reachable ∧ lateRow.validate = .error (.contract (.unproduced "late")) ∧
      ∃ (id : TensorId) (tensor : Tensor), lateRow.tensors[id.index]? = some tensor ∧
        ¬lateRow.FitsRole id tensor ∧ tensor.role ≠ .input ∧ lateRow.IsRead id := by
  have failed : lateRow.validate = .error (.contract (.unproduced "late")) := by
    with_unfolding_all rfl
  obtain ⟨id, tensor, atId, misfit, -, -, leftOver⟩ :=
    (Reachable.validate_exact reachable_lateRow).2 _ failed
  refine ⟨reachable_lateRow, failed, id, tensor, atId, misfit, ?_⟩
  by_contra unwaited
  cases leftOver unwaited

end Graph

end TensorLowering
