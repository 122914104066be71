import TensorLowering.Proofs.Propagation
import TensorLowering.Proofs.Rearrangement

/-!
The scales that are carried through a network are determined by the network and by the scales that
it comes with. Where no configured scale is a zero, they are determined by the network alone.
-/

namespace TensorLowering

open TensorLowering.Graph Ieee

namespace Graph

variable {g h : Graph}

theorem Complete.idle (complete : g.Complete) (wired : g.Wired) : g.Idle := by
  intro id tensor atId role unwritten
  obtain ⟨site, hosts, rfl⟩ := complete.written atId role
  obtain rfl := Option.some.inj (atId.symm.trans hosts.output)
  rw [hosts.producer_eq wired] at unwritten
  cases unwritten

theorem scale_of_getElem? {id : TensorId} {tensor : Tensor}
    (atId : g.tensors[id.index]? = some tensor) : g.scale id = tensor.scale := by
  simp [scale, atId]

theorem size_rescale (g : Graph) (s : TensorId → Float32) :
    (g.rescale s).tensors.size = g.tensors.size := by
  simp [rescale, mapTensors]

theorem rescale_rescale (g : Graph) (s s' : TensorId → Float32) :
    (g.rescale s).rescale s' = g.rescale s' := by
  simp [rescale, mapTensors, Array.mapIdx_mapIdx, Function.comp_def]

theorem scale_rescale {s : TensorId → Float32} {id : TensorId}
    (known : id.index < g.tensors.size) : (g.rescale s).scale id = s id := by
  simp [scale, tensors_rescale, known]

/-- Scales are equal once they are equal on the tensors that are there. -/
theorem scale_eq_of_known (size : g.tensors.size = h.tensors.size)
    (same : ∀ id : TensorId, id.index < g.tensors.size → h.scale id = g.scale id) :
    h.scale = g.scale := by
  funext id
  by_cases known : id.index < g.tensors.size
  · exact same id known
  · have unknown : g.tensors[id.index]? = none := by simpa using known
    have unknown' : h.tensors[id.index]? = none := by simpa [← size] using known
    simp [scale, unknown, unknown']

theorem Rearranged.scale_eq (same : Rearranged g h) : g.scale = h.scale :=
  funext fun id => same.elim_eq _ _ (fun _ => rfl) id

theorem SameNetwork.rescale (network : SameNetwork g h) (s s' : TensorId → Float32) :
    SameNetwork (g.rescale s) (h.rescale s') := by
  unfold SameNetwork
  rw [undecided_rescale, undecided_rescale]
  exact network

theorem Complete.rescale (complete : g.Complete) (s : TensorId → Float32) :
    (g.rescale s).Complete :=
  complete.of_sameNetwork (.of_undecided_eq (undecided_rescale g s).symm)

theorem Wired.rescale (wired : g.Wired) (s : TensorId → Float32) : (g.rescale s).Wired :=
  wired.of_undecided_eq (undecided_rescale g s)

end Graph

namespace Scale

variable {g h : Graph} {inputScales : TensorMap Float32} {s s' : TensorId → Float32}

/-- What a sole nonlinear reader of a network input leaves, and what stays without one. -/
theorem Carries.input_eq (carries : Carries g inputScales g.stageIds s) {id : TensorId}
    {tensor : Tensor} (atId : g.tensors[id.index]? = some tensor) (role : tensor.role = .input) :
    s id = if (g.soleNonlinearReader? id).isSome then 1.0 else startScale g inputScales id := by
  cases sole : g.soleNonlinearReader? id with
  | none => simpa [sole] using carries.waiting atId role (by simp [sole])
  | some reader =>
    obtain ⟨site, hosts, rfl, -⟩ := site_of_sole carries.wired sole
    simpa using carries.served atId role sole hosts.mem_stageIds

/-- Scales that are carried through a network are carried through every graph of the network, as
long as they start alike. -/
theorem Carries.transfer (carries : Carries g inputScales g.stageIds s) (network : SameNetwork g h)
    (wired : h.Wired) (complete : h.Complete)
    (same : ∀ id : TensorId, id.index < g.tensors.size → s' id = s id)
    (starts : ∀ (id : TensorId) value, id.index < g.tensors.size →
      s id = keepEqual (g.scale id) value → s id = keepEqual (h.scale id) value) :
    Carries h inputScales h.stageIds s' := by
  have known {id : TensorId} {tensor : Tensor} (atId : h.tensors[id.index]? = some tensor) :
      id.index < g.tensors.size := by
    rw [network.size_eq]
    exact (Array.getElem?_eq_some_iff.mp atId).1
  have input {id : TensorId} {tensor : Tensor} (atId : h.tensors[id.index]? = some tensor)
      (role : tensor.role = .input) : s' id =
        if (h.soleNonlinearReader? id).isSome then 1.0 else startScale h inputScales id := by
    obtain ⟨tensor', atId', alike⟩ := network.symm.exists_tensor atId
    have role' : tensor'.role = tensor.role := (congrArg Tensor.role alike :)
    have sole : (h.soleNonlinearReader? id).isSome = (g.soleNonlinearReader? id).isSome :=
      Bool.eq_iff_iff.mpr
        ⟨network.symm.isSome_soleNonlinearReader? wired carries.wired atId,
          network.isSome_soleNonlinearReader? carries.wired wired atId'⟩
    have here := carries.input_eq atId' (role'.trans role)
    rw [same id (known atId), sole]
    split
    · rwa [if_pos (by assumption)] at here
    · rw [if_neg (by assumption)] at here
      exact starts id _ (known atId) here
  have carried_eq {site site' : Site} (hosts : g.Hosts site) (alike : site'.given = site.given) :
      carried s' site' = carried s site := by
    have nonlinear : site'.stage.isNonlinear = site.stage.isNonlinear := by
      rw [← Site.isNonlinear_given, alike, Site.isNonlinear_given]
    rw [carried, carried, nonlinear, Site.inputId_of_given_eq alike,
      same _ (Array.getElem?_eq_some_iff.mp hosts.input).1]
  refine ⟨wired, complete.idle wired, carries.numbers, ?_, ?_, ?_, ?_, ?_⟩
  · intro id tensor atId role waits
    rw [input atId role, if_neg]
    intro found
    obtain ⟨reader, sole⟩ := Option.isSome_iff_exists.mp found
    obtain ⟨site, hosts, rfl, -⟩ := site_of_sole wired sole
    exact waits site.id sole hosts.mem_stageIds
  · intro id tensor reader atId role sole _
    rw [input atId role, sole]
    rfl
  · intro site hosts _
    obtain ⟨site', hosts', alike⟩ := network.symm.exists_site hosts
    have outputId := Site.outputId_of_given_eq alike
    have bound := known hosts.output
    have written := carries.written hosts' hosts'.mem_stageIds
    rw [outputId] at written
    rw [same _ bound, carried_eq hosts' alike.symm]
    exact starts _ _ bound written
  · intro site hosts _
    obtain ⟨site', hosts', alike⟩ := network.symm.exists_site hosts
    have taken := carries.taken hosts' hosts'.mem_stageIds
    rwa [Site.inputId_of_given_eq alike, ← same _ (known hosts.input),
      ← carried_eq hosts' alike.symm] at taken
  · intro id tensor atId role untouched
    obtain ⟨site, hosts, rfl⟩ := complete.written atId role
    exact absurd rfl (untouched site hosts hosts.mem_stageIds)

theorem Carries.of_sameNetwork {start : TensorId → Float32}
    (carries : Carries (g.rescale start) inputScales g.stageIds s) (network : SameNetwork g h)
    (wired : h.Wired) (complete : h.Complete) :
    Carries (h.rescale start) inputScales h.stageIds s := by
  refine Carries.transfer (g := g.rescale start) carries (network.rescale _ _) (wired.rescale _)
    (complete.rescale _) (fun _ _ => rfl) fun id value known begun => ?_
  rw [size_rescale] at known
  rw [scale_rescale known] at begun
  rwa [scale_rescale (network.size_eq ▸ known)]

/-- From the same start the same scales are carried through. -/
theorem Carries.unique (carries : Carries g inputScales g.stageIds s)
    (carries' : Carries g inputScales g.stageIds s') (id : TensorId)
    (known : id.index < g.tensors.size) : s' id = s id := by
  induction id using carries.wired.induction_upstream with | step id upstream => ?_
  have atId : g.tensors[id.index]? = some g.tensors[id.index] := Array.getElem?_eq_getElem known
  by_cases role : g.tensors[id.index].role = .input
  · rw [carries.input_eq atId role, carries'.input_eq atId role]
  · by_cases unwritten : g.Unwritten id
    · rw [carries.untouched atId role fun site hosts _ => unwritten site hosts,
        carries'.untouched atId role fun site hosts _ => unwritten site hosts]
    · simp only [Unwritten, not_forall, not_not] at unwritten
      obtain ⟨site, hosts, rfl⟩ := unwritten
      have input := upstream site hosts rfl (Array.getElem?_eq_some_iff.mp hosts.input).1
      rw [carries.written hosts hosts.mem_stageIds, carries'.written hosts hosts.mem_stageIds,
        carried, carried, input]

/-- No scale is a zero where none is configured. -/
theorem Carries.nonzero (carries : Carries g inputScales g.stageIds s) (complete : g.Complete)
    (nonzero : ∀ id, ¬givenScale inputScales id == 0) (id : TensorId)
    (known : id.index < g.tensors.size) : ¬s id == 0 := by
  induction id using carries.wired.induction_upstream with | step id upstream => ?_
  have one : ¬(1.0 : Float32) == 0 := by decide
  have atId : g.tensors[id.index]? = some g.tensors[id.index] := Array.getElem?_eq_getElem known
  by_cases role : g.tensors[id.index].role = .input
  · rw [carries.input_eq atId role]
    split
    · exact one
    · rw [startScale, keepEqual_of_nonzero _ (nonzero id)]
      exact nonzero id
  · obtain ⟨site, hosts, rfl⟩ := complete.written atId role
    have input := upstream site hosts rfl (Array.getElem?_eq_some_iff.mp hosts.input).1
    have here : ¬carried s site == 0 := by
      unfold carried
      split
      · exact one
      · exact input
    rwa [carries.written hosts hosts.mem_stageIds, keepEqual_of_nonzero _ here]

/-- Where no configured scale is a zero, it does not matter which scales were there before. -/
theorem Carries.restart {start : TensorId → Float32}
    (carries : Carries (g.rescale start) inputScales g.stageIds s) (wired : g.Wired)
    (complete : g.Complete) (nonzero : ∀ id, ¬givenScale inputScales id == 0)
    (other : TensorId → Float32) : Carries (g.rescale other) inputScales g.stageIds s := by
  refine Carries.transfer (g := g.rescale start) carries (h := g.rescale other) ?_ (wired.rescale _)
    (complete.rescale _) (fun _ _ => rfl) fun id value known begun => ?_
  · exact SameNetwork.rescale (.of_undecided_eq rfl) _ _
  · have here := Carries.nonzero (g := g.rescale start) carries (complete.rescale _) nonzero id known
    rw [begun] at here ⊢
    rw [eq_of_keepEqual_nonzero here, keepEqual_of_nonzero]
    rwa [eq_of_keepEqual_nonzero here] at here

end Scale

end TensorLowering
