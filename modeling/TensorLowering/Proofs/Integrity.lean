import Mathlib.Logic.Relation
import TensorLowering.Proofs.Reachable

namespace TensorLowering

open Relation (TransGen ReflTransGen)

/-- A place that data passes through. -/
inductive Node where
  | tensor (id : TensorId)
  | stage (id : StageId)

namespace Graph

/-- Data moves from a tensor to a stage that lists it as an input, and from a stage to a tensor that
the stage lists as an output. What the tensors list plays no part in this. -/
inductive Moves (g : Graph) : Node → Node → Prop
  | read {id : StageId} {stage : Stage} {tensor : TensorId} :
      g.stages[id.index]? = some stage → tensor ∈ stage.inputs →
      Moves g (.tensor tensor) (.stage id)
  | write {id : StageId} {stage : Stage} {tensor : TensorId} :
      g.stages[id.index]? = some stage → tensor ∈ stage.outputs →
      Moves g (.stage id) (.tensor tensor)

/-- Data that leaves a place never comes back to it. -/
def Acyclic (g : Graph) : Prop := ∀ node, ¬TransGen g.Moves node node

/-- Stages and tensors tell the same about who reads and who writes what, readers are entered once
and in the order in which they were wired, and data does not flow in circles. -/
structure Consistent (g : Graph) : Prop where
  reads_iff : ∀ (reader : StageId) (id : TensorId),
    (∃ stage, g.stages[reader.index]? = some stage ∧ id ∈ stage.inputs) ↔
      ∃ tensor, g.tensors[id.index]? = some tensor ∧ reader ∈ tensor.consumers
  writes_iff : ∀ (writer : StageId) (id : TensorId),
    (∃ stage, g.stages[writer.index]? = some stage ∧ id ∈ stage.outputs) ↔
      ∃ tensor, g.tensors[id.index]? = some tensor ∧ tensor.producer = some writer
  increasing : ∀ (id : TensorId) (tensor : Tensor), g.tensors[id.index]? = some tensor →
    tensor.consumers.Pairwise (·.index < ·.index)
  arity : ∀ (id : StageId) (stage : Stage), g.stages[id.index]? = some stage →
    stage.inputs.length = stage.kind.arity.inputs ∧ stage.outputs.length = stage.kind.arity.outputs
  given : ∀ (id : TensorId) (tensor : Tensor), g.tensors[id.index]? = some tensor →
    tensor.role = .input → tensor.producer = none
  acyclic : g.Acyclic

/-- What a stage has to bring along to be wired, said without a search: with the stage added, data
still does not flow in circles. -/
structure Admits (g : Graph) (stage : Stage) : Prop where
  known : ∀ id ∈ stage.inputs ++ stage.outputs, id.index < g.tensors.size
  arity : stage.inputs.length = stage.kind.arity.inputs ∧
    stage.outputs.length = stage.kind.arity.outputs
  unproduced : ∀ id ∈ stage.outputs, ∀ tensor, g.tensors[id.index]? = some tensor →
    tensor.producer = none
  notGiven : ∀ id ∈ stage.outputs, ∀ tensor, g.tensors[id.index]? = some tensor →
    tensor.role ≠ .input
  acyclic : (g.connect stage).Acyclic

variable {g : Graph}

/-- Every move goes to a greater number: tensors have the even ones, by their depth, and a stage
comes right after what it reads. -/
theorem Wired.exists_node_rank (wired : g.Wired) :
    ∃ rank : Node → Nat, ∀ {node next : Node}, g.Moves node next → rank node < rank next := by
  obtain ⟨depth, grows⟩ := wired.acyclic
  refine ⟨fun
    | .tensor id => 2 * depth id
    | .stage id => 2 * ((g.stages[id.index]?).bind (·.inputs.head?)).elim 0 depth + 1, ?_⟩
  intro node next moves
  cases moves with
  | read atId member =>
    obtain ⟨site, hosts, rfl, rfl⟩ := wired.exists_site atId
    rw [hosts.inputs, List.mem_singleton] at member
    subst member
    simp [hosts.stage, hosts.inputs]
  | write atId member =>
    obtain ⟨site, hosts, rfl, rfl⟩ := wired.exists_site atId
    have deeper := grows hosts.stage site.inputId (by simp [hosts.inputs]) _ member
    simp only [hosts.stage, hosts.inputs, Option.bind_some, List.head?_cons, Option.elim_some]
    omega

theorem Wired.acyclic_moves (wired : g.Wired) : g.Acyclic := by
  intro node circle
  obtain ⟨rank, grows⟩ := wired.exists_node_rank
  have rises : ∀ {last : Node}, TransGen g.Moves node last → rank node < rank last := by
    intro last moves
    induction moves with
    | single first => exact grows first
    | tail _ step ih => exact ih.trans (grows step)
  exact Nat.lt_irrefl _ (rises circle)

theorem Wired.consistent (wired : g.Wired) : g.Consistent where
  reads_iff reader id := by
    constructor
    · intro found
      obtain ⟨stage, atReader, read⟩ := found
      obtain ⟨tensor, atId⟩ := wired.exists_tensor atReader (List.mem_append_left _ read)
      exact ⟨tensor, atId, (wired.readers atId).mpr ⟨stage, atReader, read⟩⟩
    · intro found
      obtain ⟨tensor, atId, listed⟩ := found
      exact (wired.readers atId).mp listed
  writes_iff writer id := by
    constructor
    · intro found
      obtain ⟨stage, atWriter, written⟩ := found
      obtain ⟨tensor, atId⟩ := wired.exists_tensor atWriter (List.mem_append_right _ written)
      exact ⟨tensor, atId, (wired.writer atId).mpr ⟨stage, atWriter, written⟩⟩
    · intro found
      obtain ⟨tensor, atId, named⟩ := found
      exact (wired.writer atId).mp named
  increasing _ _ := wired.sorted
  arity _ _ := wired.arity
  given _ _ := wired.given
  acyclic := wired.acyclic_moves

/-! ### What the search finds -/

/-- A target that the search finds can be reached from the queue. -/
theorem reaches_of_search_eq_some {targets queue fresh : List TensorId} {reached : TensorId}
    (found : g.search targets queue fresh = some reached) :
    reached ∈ targets ∧
      ∃ source ∈ queue, ReflTransGen (fun id next => next ∈ g.successors id) source reached := by
  fun_induction search g targets queue fresh with
  | case1 => cases found
  | case2 fresh next waiting target =>
    cases found
    exact ⟨target, _, List.mem_cons_self .., .refl⟩
  | case3 fresh next waiting _ ih =>
    obtain ⟨target, source, member, reaches⟩ := ih found
    refine ⟨target, ?_⟩
    rcases List.mem_append.mp member with later | follows
    · exact ⟨source, List.mem_cons_of_mem _ later, reaches⟩
    · simp only [following, List.mem_filter, decide_eq_true_eq] at follows
      exact ⟨next, List.mem_cons_self .., reaches.head follows.2⟩

theorem Wired.moves_of_mem_successors (wired : g.Wired) {id next : TensorId}
    (follows : next ∈ g.successors id) : ReflTransGen g.Moves (.tensor id) (.tensor next) := by
  have known : id.index < g.tensors.size := by
    by_contra unknown
    simp [successors, Array.getElem?_eq_none (Nat.le_of_not_gt unknown)] at follows
  obtain ⟨reader, stage, atReader, read, written⟩ := (mem_successors wired known).mp follows
  exact (ReflTransGen.single (.read atReader read)).tail (.write atReader written)

theorem Wired.moves_of_reaches (wired : g.Wired) {source reached : TensorId}
    (reaches : ReflTransGen (fun id next => next ∈ g.successors id) source reached) :
    ReflTransGen g.Moves (.tensor source) (.tensor reached) := by
  induction reaches with
  | refl => exact .refl
  | tail _ follows ih => exact ih.trans (wired.moves_of_mem_successors follows)

theorem Moves.connect {node next : Node} (moves : g.Moves node next) (stage : Stage) :
    (g.connect stage).Moves node next := by
  cases moves with
  | read atId member => exact .read (getElem?_stages_connect.mpr (.inl atId)) member
  | write atId member => exact .write (getElem?_stages_connect.mpr (.inl atId)) member

/-- Where the search finds an input of the new stage behind one of its outputs, the new stage closes
a circle through itself. -/
theorem Wired.firstReachable?_eq_none (wired : g.Wired) {stage : Stage}
    (acyclic : (g.connect stage).Acyclic) :
    g.firstReachable? stage.outputs stage.inputs = none := by
  by_contra found
  obtain ⟨reached, found⟩ := Option.ne_none_iff_exists'.mp found
  obtain ⟨read, source, written, reaches⟩ := reaches_of_search_eq_some found
  have added : (g.connect stage).stages[g.stages.size]? = some stage :=
    getElem?_stages_connect.mpr (.inr ⟨rfl, rfl⟩)
  have leaves : (g.connect stage).Moves (.stage ⟨g.stages.size⟩) (.tensor source) :=
    .write added written
  have returns : (g.connect stage).Moves (.tensor reached) (.stage ⟨g.stages.size⟩) :=
    .read added read
  have between : ReflTransGen (g.connect stage).Moves (.tensor source) (.tensor reached) :=
    ReflTransGen.mono (fun _ _ (moves : g.Moves _ _) => moves.connect stage) _ _
      (wired.moves_of_reaches reaches)
  exact acyclic _ ((TransGen.head' leaves between).tail returns)

theorem Wired.accepts_iff_admits (wired : g.Wired) {stage : Stage} :
    g.Accepts stage ↔ g.Admits stage := by
  constructor
  · intro accepts
    exact ⟨accepts.known, accepts.arity,
      fun id member tensor atId => (accepts.free id member tensor atId).1,
      fun id member tensor atId => (accepts.free id member tensor atId).2.1,
      (wired.connect accepts).acyclic_moves⟩
  · intro admits
    have apart : ∀ id ∈ stage.outputs, id ∉ stage.inputs := by
      intro id written read
      have added : (g.connect stage).stages[g.stages.size]? = some stage :=
        getElem?_stages_connect.mpr (.inr ⟨rfl, rfl⟩)
      have leaves : (g.connect stage).Moves (.stage ⟨g.stages.size⟩) (.tensor id) :=
        .write added written
      exact admits.acyclic _ ((TransGen.single leaves).tail (.read added read))
    obtain ⟨output, outputs⟩ : ∃ output, stage.outputs = [output] :=
      List.length_eq_one_iff.mp (by rw [admits.arity.2, Kind.arity_eq])
    exact ⟨admits.known, admits.arity,
      fun id member tensor atId => ⟨admits.unproduced id member tensor atId,
        admits.notGiven id member tensor atId, apart id member⟩,
      by simp [outputs], wired.firstReachable?_eq_none admits.acyclic⟩

/-! ### Insertion in place -/

/-- The insertion as work on the graph itself. Every check comes before the first change. -/
def inserting (stage : Stage) : Attempt Graph StageId := do
  ask (·.checkWiring stage)
  let id : StageId := ⟨(← get).stages.size⟩
  stage.inputs.forM fun input => modify (·.addConsumer id input)
  stage.outputs.forM fun output => modify (·.setProducer id output)
  modify fun g => { g with stages := g.stages.push stage }
  return id

theorem forM_modify (change : Graph → TensorId → Graph) (ids : List TensorId) (g : Graph) :
    (ids.forM fun id => modify (change · id) : Attempt Graph PUnit) g =
      .ok () (ids.foldl change g) := by
  induction ids generalizing g with
  | nil => rfl
  | cons id rest ih => exact ih (change g id)

/-- In place, an insertion that succeeds leaves the wired graph behind, and one that is refused the
graph it was given. -/
theorem inserting_eq (stage : Stage) (g : Graph) :
    inserting stage g =
      match g.insertStage stage with
      | .ok (id, after) => .ok id after
      | .error error => .error error g := by
  simp only [inserting, insertStage, bind, EStateM.bind, ask]
  cases g.checkWiring stage with
  | error error => rfl
  | ok result =>
    have got : (get : Attempt Graph Graph) g = .ok g g := rfl
    simp only [got]
    rw [forM_modify]
    simp only
    rw [forM_modify]
    rfl

/-- Building and lowering keep the wiring consistent, whether they succeed or fail, and a stage is
wired exactly if the graph admits it. An insertion that is refused changes nothing. -/
theorem Reachable.integrity (reachable : g.Reachable) :
    g.Consistent ∧ ∀ stage : Stage,
      ((∃ id after, g.insertStage stage = .ok (id, after)) ↔ g.Admits stage) ∧
      (∀ id after, g.insertStage stage = .ok (id, after) → inserting stage g = .ok id after) ∧
      ∀ error, g.insertStage stage = .error error → inserting stage g = .error error g := by
  have wired := reachable.wellFormed.wired
  refine ⟨wired.consistent, fun stage => ⟨?_, fun id after inserted => ?_, fun error refused => ?_⟩⟩
  · rw [← wired.accepts_iff_admits]
    constructor
    · intro found
      obtain ⟨id, after, inserted⟩ := found
      exact (insertStage_eq_ok_iff.mp inserted).1
    · intro accepts
      exact ⟨_, _, insertStage_eq_ok_iff.mpr ⟨accepts, rfl, rfl⟩⟩
  · rw [inserting_eq, inserted]
  · rw [inserting_eq, refused]

/-- Nothing can be wired to write the copied row a second time. -/
theorem integrity_spreadRow :
    spreadRow.Reachable ∧ spreadRow.Consistent ∧
      ¬∃ id after, spreadRow.insertStage ⟨"again", none, [⟨2⟩], [⟨1⟩], .copy {} none⟩ =
        .ok (id, after) := by
  obtain ⟨consistent, exact⟩ := Reachable.integrity (reachable_widenedRow _ : spreadRow.Reachable)
  refine ⟨reachable_widenedRow _, consistent, fun inserted => ?_⟩
  have admits := (exact ⟨"again", none, [⟨2⟩], [⟨1⟩], .copy {} none⟩).1.mp inserted
  have free := admits.unproduced ⟨1⟩ (List.mem_singleton.mpr rfl) _ rfl
  cases free

end Graph

end TensorLowering
