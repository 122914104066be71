import TensorLowering.Proofs.Reachable

/-!
A copy that is detached keeps its mode, and so does the stage that is made of it. Whether a copy can
be written is therefore not a matter of its own finalization alone.
-/

namespace TensorLowering

open Attempt

/-- The items that a sweep gets through, up to the first that fails. -/
def Attempt.treated {σ α : Type} (treat : α → Attempt σ Nat) : List α → σ → List α
  | [], _ => []
  | item :: rest, now =>
    match treat item now with
    | .ok _ after => item :: treated treat rest after
    | .error _ _ => []

/-- The stages that layout finalization runs on: none if the strides of some tensor cannot be
resolved. -/
def Layout.finalized (g : Graph) : List StageId :=
  match sweep resolve g.tensorIds g with
  | .error _ _ => []
  | .ok _ resolved =>
    match resolved.schedule with
    | .error _ => []
    | .ok order => treated finalizeStage order resolved

/-- Whether a copy has its mode; nothing for any other operation. -/
def Operation.decided? : Operation → Option Bool
  | .copy _ mode => some mode.isSome
  | _ => none

theorem Operation.decided?_decideMode (operation : Operation) (mode : CopyMode) :
    (operation.decideMode mode).decided? = operation.decided?.map fun _ => true := by
  cases operation <;> rfl

namespace Graph

variable {g after : Graph}

/-- Whether the copy at a handle has its mode; nothing if there is no copy. -/
def decided? (g : Graph) (id : StageId) : Option Bool :=
  (g.stages[id.index]?).bind (·.operation.decided?)

theorem decided?_of_stages_eq (same : after.stages = g.stages) (id : StageId) :
    after.decided? id = g.decided? id := by
  rw [decided?, same, decided?]

theorem decided?_decideMode (g : Graph) (id other : StageId) (mode : CopyMode) :
    (g.modifyStage id fun stage =>
      { stage with operation := stage.operation.decideMode mode }).decided? other =
        (g.decided? other).map (· || decide (other = id)) := by
  obtain ⟨index⟩ := id
  obtain ⟨place⟩ := other
  simp only [decided?, modifyStage, Array.getElem?_modify, StageId.mk.injEq]
  by_cases here : index = place
  · subst here
    cases g.stages[index]? with
    | none => simp
    | some stage => simp [Operation.decided?_decideMode]
  · simp [here, Ne.symm here]

theorem decided?_of_detach {id : StageId} {detached : DetachedStage}
    (taken : g.detach id = .ok detached) : detached.operation.decided? = g.decided? id := by
  simp only [detach, bind_eq_ok, stage_eq_ok_iff, pure, Except.pure, Except.ok.injEq] at taken
  obtain ⟨stage, atId, rfl⟩ := taken
  simp [decided?, atId]

theorem Hosts.writeParams_copy_iff {site : Site} (hosts : g.Hosts site) {demands : CopyDemands}
    {mode : Option CopyMode} (operation : site.stage.operation = .copy demands mode)
    {writer : Image.Writer} :
    g.writeParams site.id writer = .error (site.stage.fault .writtenBeforeFinalization) writer ↔
      mode = none := by
  simp only [writeParams, bind, EStateM.bind, ask, hosts.site_eq, operation]
  cases mode with
  | none => exact iff_of_true rfl rfl
  | some mode =>
    -- Once there is a mode, all that can go wrong is that the bytes are too many to be counted.
    refine iff_of_false (fun refused => ?_) (Option.some_ne_none mode)
    simp only [Image.count] at refused
    split at refused <;> cases refused

theorem Hosts.checkStageFinal_copy_iff {site : Site} (hosts : g.Hosts site) {demands : CopyDemands}
    {mode : Option CopyMode} (operation : site.stage.operation = .copy demands mode) :
    g.checkStageFinal site.id = .ok () ↔
      site.input.extents = site.output.extents ∧ mode.isSome := by
  simp only [checkStageFinal, hosts.site_eq, bind_eq_ok, Except.ok.injEq, exists_eq_left',
    operation, Site.checkSameExtents, Site.ensure_eq_ok_iff, decide_eq_true_iff]
  exact ⟨fun ⟨_, same, decided⟩ => ⟨same, decided⟩, fun ⟨same, decided⟩ => ⟨(), same, decided⟩⟩

/-- All that differs between the copies of two graphs is that those at some handles have a mode. -/
def Decides (g after : Graph) (ids : List StageId) : Prop :=
  ∀ id, after.decided? id = (g.decided? id).map (· || decide (id ∈ ids))

theorem Decides.of_stages_eq (same : after.stages = g.stages) : g.Decides after [] := by
  intro id
  simp [decided?_of_stages_eq same]

theorem Decides.trans {last : Graph} {ids ids' : List StageId} (first : g.Decides after ids)
    (second : after.Decides last ids') : g.Decides last (ids ++ ids') := by
  intro id
  rw [second, first, Option.map_map]
  congr 1
  funext decided
  simp [Bool.or_assoc]

end Graph

namespace Layout

variable {g after : Graph}

/-- A stage that is finalized has its mode afterwards, and nothing happens to one that is not. -/
theorem finalizeStage_decides (id : StageId) :
    (finalizeStage id).Ensures g (fun _ after => g.Decides after [id]) fun _ after => after = g := by
  simp only [finalizeStage, ensures_bind, ensures_ask, ensures_modify, ensures_pure]
  refine ⟨fun stage _ => ⟨fun _ _ => ⟨fun tensors _ other => ?_, fun _ _ => trivial⟩,
    fun _ _ => trivial⟩, fun _ _ => trivial⟩
  simpa using g.decided?_decideMode id other (.choose tensors)

/-- By induction on the stages that are still to be finalized. -/
theorem sweep_finalizeStage_decides (order : List StageId) :
    g.Decides (Attempt.state (sweep finalizeStage order) g) (treated finalizeStage order g) := by
  induction order generalizing g with
  | nil => exact .of_stages_eq rfl
  | cons id rest ih =>
    have step := @finalizeStage_decides g id
    simp only [sweep, state_bind, state_pure, treated]
    cases outcome : finalizeStage id g with
    | error error after =>
      obtain rfl := step.of_error outcome
      exact .of_stages_eq rfl
    | ok count after =>
      have later := (step.of_ok outcome).trans (@ih after)
      cases finished : sweep finalizeStage rest after <;> simpa [state, finished] using later

theorem finalize_decides (g : Graph) : g.Decides (Attempt.state finalize g) (finalized g) := by
  have resolving : Keeps (fun now : Graph => now.stages = g.stages) (sweep resolve g.tensorIds) :=
    keeps_sweep fun id _ => resolve_keeps (fun _ _ _ _ same _ _ => same) id
  have stages := resolving g rfl
  rw [finalize, state_get_bind, finalized]
  simp only [state_bind, state_pure, ask]
  cases outcome : sweep resolve g.tensorIds g with
  | error error after => exact .of_stages_eq (stages.of_error outcome)
  | ok count resolved =>
    have same := stages.of_ok outcome
    cases scheduled : resolved.schedule with
    | error error =>
      simp only [scheduled]
      exact .of_stages_eq same
    | ok order =>
      simp only [scheduled]
      have later := (Graph.Decides.of_stages_eq same).trans (sweep_finalizeStage_decides order)
      cases finished : sweep finalizeStage order resolved <;> simpa [state, finished] using later

end Layout

/-- A graph together with what its stages went through. -/
structure History where
  graph : Graph
  /-- The stages that layout finalization has run on since they were put into the graph. -/
  finalized : List StageId
  /-- The stages that were put in as the copy of a stage that had been finalized or was such a copy
  itself. -/
  inherited : List StageId

namespace History

/-- Whether a finalization has left something in a stage, be it its own or that of a stage it was
copied from. -/
def settled (h : History) (id : StageId) : Bool := id ∈ h.finalized ∨ id ∈ h.inherited

/-- A stage enters the graph. Nothing that was known of its handle is about it. -/
def insert (h : History) (after : Graph) (id : StageId) (settled : Bool) : History where
  graph := after
  finalized := h.finalized.filter (· ≠ id)
  inherited := if settled then id :: h.inherited else h.inherited.filter (· ≠ id)

def finalize (h : History) (after : Graph) : History :=
  { h with graph := after, finalized := Layout.finalized h.graph ++ h.finalized }

/-- The histories of the graphs that building and lowering lead to. -/
inductive Reachable : History → Prop
  | empty (name : String) : Reachable ⟨.empty name, [], []⟩
  | addTensor {h : History} (name : String) (type : ElementType) (extents : AxisMap) {role : Role} :
      Reachable h → role ≠ .output →
      Reachable { h with graph := (h.graph.addTensor name type extents role).2 }
  | markOutput {h : History} {after : Graph} {id : TensorId} :
      Reachable h → h.graph.markOutput id = .ok after → Reachable { h with graph := after }
  | setInputOrder {h : History} {after : Graph} {id : TensorId} {order : AxisOrder} :
      Reachable h → order.Built → h.graph.setInputOrder id order = .ok after →
      Reachable { h with graph := after }
  | addCopy {h : History} {after : Graph} {name : String} {origin : Option Origin}
      {inputs outputs : List TensorId} {demands : CopyDemands} {id : StageId} :
      Reachable h → h.graph.addCopy name origin inputs outputs demands = .ok (id, after) →
      Reachable (h.insert after id false)
  | addPower {h : History} {after : Graph} {name : String} {origin : Option Origin}
      {inputs outputs : List TensorId} {params : PowerParams} {id : StageId} :
      Reachable h → h.graph.addPower name origin inputs outputs params = .ok (id, after) →
      Reachable (h.insert after id false)
  | addExpand {h : History} {after : Graph} {name : String} {origin : Option Origin}
      {inputs outputs : List TensorId} {offset : AxisMap} {id : StageId} :
      Reachable h → h.graph.addExpand name origin inputs outputs offset = .ok (id, after) →
      Reachable (h.insert after id false)
  | addDetached {h source : History} {after : Graph} {name : String} {detached : DetachedStage}
      {inputs outputs : List TensorId} {copied id : StageId} :
      Reachable h → Reachable source → source.graph.detach copied = .ok detached →
      h.graph.addDetached name detached inputs outputs = .ok (id, after) →
      Reachable (h.insert after id (source.settled copied))
  | pass {h : History} {w : Workspace} {settings : Settings} {pass : Pass Workspace} :
      Reachable h → w.graph = h.graph → pass ∈ Pass.all settings →
      pass ≠ Pass.finalizeLayout →
      Reachable { h with graph := (Attempt.state pass.run w).graph }
  | finalizeLayout {h : History} {w : Workspace} :
      Reachable h → w.graph = h.graph →
      Reachable (h.finalize (Attempt.state Pass.finalizeLayout.run w).graph)

variable {h : History}

theorem Reachable.forget (reachable : h.Reachable) : h.graph.Reachable := by
  induction reachable with
  | empty name => exact .empty name
  | addTensor name type extents _ role ih => exact ih.addTensor name type extents role
  | markOutput _ marked ih => exact ih.markOutput marked
  | setInputOrder _ built chosen ih => exact ih.setInputOrder built chosen
  | addCopy _ inserted ih => exact ih.addCopy inserted
  | addPower _ inserted ih => exact ih.addPower inserted
  | addExpand _ inserted ih => exact ih.addExpand inserted
  | addDetached _ _ detached inserted ih ih' => exact ih.addDetached ih' detached inserted
  | pass _ same member _ ih => exact (same ▸ ih : Graph.Reachable _).pass member
  | finalizeLayout _ same ih =>
    exact @Graph.Reachable.pass _ {} _ (same ▸ ih) (by simp [Pass.all])

end History

theorem Graph.Reachable.remembered {g : Graph} (reachable : g.Reachable) :
    ∃ h : History, h.Reachable ∧ h.graph = g := by
  induction reachable with
  | empty name => exact ⟨_, .empty name, rfl⟩
  | addTensor name type extents _ role ih =>
    obtain ⟨h, reached, rfl⟩ := ih
    exact ⟨_, reached.addTensor name type extents role, rfl⟩
  | markOutput _ marked ih =>
    obtain ⟨h, reached, rfl⟩ := ih
    exact ⟨_, reached.markOutput marked, rfl⟩
  | setInputOrder _ built chosen ih =>
    obtain ⟨h, reached, rfl⟩ := ih
    exact ⟨_, reached.setInputOrder built chosen, rfl⟩
  | addCopy _ inserted ih =>
    obtain ⟨h, reached, rfl⟩ := ih
    exact ⟨_, reached.addCopy inserted, rfl⟩
  | addPower _ inserted ih =>
    obtain ⟨h, reached, rfl⟩ := ih
    exact ⟨_, reached.addPower inserted, rfl⟩
  | addExpand _ inserted ih =>
    obtain ⟨h, reached, rfl⟩ := ih
    exact ⟨_, reached.addExpand inserted, rfl⟩
  | addDetached _ _ detached inserted ih ih' =>
    obtain ⟨h, reached, rfl⟩ := ih
    obtain ⟨source, reached', rfl⟩ := ih'
    exact ⟨_, reached.addDetached reached' detached inserted, rfl⟩
  | @pass w settings pass _ member ih =>
    obtain ⟨h, reached, same⟩ := ih
    by_cases finalizes : pass = Pass.finalizeLayout
    · obtain rfl := finalizes
      exact ⟨_, reached.finalizeLayout same.symm, rfl⟩
    · exact ⟨_, reached.pass same.symm member finalizes, rfl⟩

theorem Pass.keeps_stages {stages : Array Stage} {settings : Settings} {pass : Pass Workspace}
    (member : pass ∈ all settings) (other : pass ≠ finalizeLayout) :
    Keeps (fun w : Workspace => w.graph.stages = stages) pass.run :=
  @keeps_of_ne_finalizeLayout (fun g => g.stages = stages) settings
    (Scale.propagate_keeps (fun _ _ _ same => same) _)
    (AxisOrder.propagate_keeps fun _ _ same _ _ => same)
    (Negotiation.negotiate_keeps fun _ _ _ _ _ same _ _ _ => same)
    (Batching.determine_keeps fun _ _ _ same => same) pass member other

theorem Pass.state_finalizeLayout (w : Workspace) :
    (Attempt.state finalizeLayout.run w).graph = Attempt.state Layout.finalize w.graph := by
  simp only [finalizeLayout, updating, state_bind, state_pure]
  simp only [Attempt.within, Attempt.state]
  cases Layout.finalize w.graph <;> rfl

namespace History

variable {h : History} {after : Graph} {id other : StageId}

theorem settled_insert {settled : Bool} :
    (h.insert after id settled).settled other =
      if other = id then settled else h.settled other := by
  by_cases here : other = id <;> cases settled <;> simp [History.settled, insert, here]

theorem settled_finalize :
    (h.finalize after).settled id = (decide (id ∈ Layout.finalized h.graph) || h.settled id) := by
  simp [settled, finalize, or_assoc]

/-- A copy has a mode exactly if a finalization has left one in it. -/
def Recorded (h : History) : Prop :=
  ∀ id decided, h.graph.decided? id = some decided → decided = h.settled id

theorem Recorded.of_stages_eq (recorded : h.Recorded) (same : after.stages = h.graph.stages) :
    { h with graph := after }.Recorded := by
  intro id decided found
  rw [Graph.decided?_of_stages_eq same] at found
  exact recorded id decided found

theorem Recorded.insert (recorded : h.Recorded) {stage : Stage} {settled : Bool}
    (inserted : h.graph.insertStage stage = .ok (id, after))
    (fits : ∀ decided, stage.operation.decided? = some decided → decided = settled) :
    (h.insert after id settled).Recorded := by
  obtain ⟨-, rfl, rfl⟩ := Graph.insertStage_eq_ok_iff.mp inserted
  intro other decided found
  obtain ⟨found', atOther, decides⟩ := Option.bind_eq_some_iff.mp found
  rw [settled_insert]
  rcases Graph.getElem?_stages_connect.mp atOther with old | ⟨rfl, rfl⟩
  · -- The stages from before have other handles, so what is known of them stays.
    have inside := (Array.getElem?_eq_some_iff.mp old).1
    have differs : other ≠ ⟨h.graph.stages.size⟩ := by
      rintro rfl
      exact Nat.lt_irrefl _ inside
    rw [if_neg differs]
    exact recorded other decided (Option.bind_eq_some_iff.mpr ⟨found', old, decides⟩)
  · rw [if_pos rfl]
    exact fits decided decides

theorem Recorded.finalize (recorded : h.Recorded) :
    (h.finalize (Attempt.state Layout.finalize h.graph)).Recorded := by
  intro id decided found
  rw [settled_finalize]
  have changes := Layout.finalize_decides h.graph id
  obtain ⟨before, atBefore, rfl⟩ := Option.map_eq_some_iff.mp (changes.symm.trans found)
  rw [recorded id before atBefore, Bool.or_comm]

theorem Reachable.recorded (reachable : h.Reachable) : h.Recorded := by
  induction reachable with
  | empty name => simp [Recorded, Graph.decided?, Graph.empty]
  | addTensor _ _ _ _ _ ih => exact ih.of_stages_eq rfl
  | markOutput _ marked ih =>
    obtain ⟨_, -, -, rfl⟩ := Graph.markOutput_eq_ok_iff.mp marked
    exact ih.of_stages_eq rfl
  | setInputOrder _ _ chosen ih =>
    obtain ⟨_, -, -, -, rfl⟩ := Graph.setInputOrder_eq_ok_iff.mp chosen
    exact ih.of_stages_eq rfl
  | addCopy _ inserted ih => exact ih.insert inserted (by simp [Operation.decided?])
  | addPower _ inserted ih => exact ih.insert inserted (by simp [Operation.decided?])
  | addExpand _ inserted ih => exact ih.insert inserted (by simp [Operation.decided?])
  | addDetached _ _ taken inserted ih ih' =>
    exact ih.insert inserted fun decided found =>
      ih' _ decided (Graph.decided?_of_detach taken ▸ found)
  | @pass h w settings pass _ same member other ih =>
    exact ih.of_stages_eq
      (keeps_iff_state.mp (Pass.keeps_stages member other) w (congrArg Graph.stages same))
  | finalizeLayout _ same ih =>
    rw [Pass.state_finalizeLayout, same]
    exact ih.finalize

/-- A copy refuses to be written exactly as long as it has neither been finalized since it was put
into the graph nor been made of a stage that had its mode. The last check refuses it then too, and
otherwise only if its tensors differ in shape. -/
theorem Reachable.refuses_iff (reachable : h.Reachable) {site : Graph.Site}
    (hosts : h.graph.Hosts site) (copies : site.stage.kind = .copy) :
    (∀ writer, h.graph.writeParams site.id writer =
        .error (site.stage.fault .writtenBeforeFinalization) writer ↔
      site.id ∉ h.finalized ∧ site.id ∉ h.inherited) ∧
    (h.graph.checkStageFinal site.id = .ok () ↔
      site.input.extents = site.output.extents ∧
        (site.id ∈ h.finalized ∨ site.id ∈ h.inherited)) := by
  obtain ⟨demands, mode, operation⟩ : ∃ demands mode, site.stage.operation = .copy demands mode := by
    cases operation : site.stage.operation <;> simp_all [Stage.kind, Operation.kind]
  have found : h.graph.decided? site.id = some mode.isSome := by
    simp [Graph.decided?, hosts.stage, operation, Operation.decided?]
  have recorded : mode.isSome ↔ site.id ∈ h.finalized ∨ site.id ∈ h.inherited := by
    rw [reachable.recorded site.id _ found, settled, decide_eq_true_iff]
  constructor
  · intro writer
    rw [← not_or, ← recorded, hosts.writeParams_copy_iff operation]
    simp
  · rw [← recorded]
    exact hosts.checkStageFinal_copy_iff operation

end History

namespace Graph

/-- A row of four bytes, to be copied. -/
def copiedRow : Graph where
  name := "row"
  tensors := #[
    { Tensor.fresh "x" .u8 { w := some 4 } .input with consumers := [⟨0⟩] },
    { Tensor.fresh "y" .u8 { w := some 4 } .intermediate with producer := some ⟨0⟩ }]
  stages := #[⟨"copy", none, [⟨0⟩], [⟨1⟩], .copy {} none⟩]

theorem reachable_copiedRow : History.Reachable ⟨copiedRow, [], []⟩ := by
  let given := ((empty "row").addTensor "x" .u8 { w := some 4 } .input).2
  let tensors := (given.addTensor "y" .u8 { w := some 4 } .intermediate).2
  have built : History.Reachable ⟨tensors, [], []⟩ :=
    ((History.Reachable.empty "row").addTensor _ _ _ (by decide)).addTensor _ _ _ (by decide)
  have copies : tensors.addCopy "copy" none [⟨0⟩] [⟨1⟩] {} = .ok (⟨0⟩, copiedRow) := by
    decide +kernel
  exact built.addCopy copies

/-- A copy that nothing happened to is not written. -/
theorem refuses_copiedRow :
    ∃ site, copiedRow.Hosts site ∧ site.stage.kind = .copy ∧
      (∀ writer, copiedRow.writeParams site.id writer =
        .error (site.stage.fault .writtenBeforeFinalization) writer) ∧
      copiedRow.checkStageFinal site.id ≠ .ok () := by
  obtain ⟨site, hosts, -⟩ := reachable_copiedRow.forget.wellFormed.wired.site_of_mem
    (by decide : (⟨0⟩ : StageId) ∈ copiedRow.stageIds)
  have copies : site.stage.kind = .copy :=
    (by decide : ∀ stage ∈ copiedRow.stages, stage.kind = .copy) _
      (mem_stages_iff.mpr ⟨_, hosts.stage⟩)
  obtain ⟨refuses, passes⟩ := reachable_copiedRow.refuses_iff hosts copies
  refine ⟨site, hosts, copies, fun writer => (refuses writer).mpr (by simp), fun passed => ?_⟩
  simpa using (passes.mp passed).2

/-- The row once it is laid out, with a second copy that was made of the first. -/
def copiedAgain : Graph where
  name := "row"
  tensors := #[
    { Tensor.fresh "x" .u8 { w := some 4 } .input with
      strides := some { w := some 1 }, consumers := [⟨0⟩] },
    { Tensor.fresh "y" .u8 { w := some 4 } .intermediate with
      strides := some { w := some 1 }, producer := some ⟨0⟩, consumers := [⟨1⟩] },
    { Tensor.fresh "z" .u8 { w := some 4 } .intermediate with producer := some ⟨1⟩ }]
  stages := #[
    ⟨"copy", none, [⟨0⟩], [⟨1⟩], .copy {} (some .linear)⟩,
    ⟨"again", none, [⟨1⟩], [⟨2⟩], .copy {} (some .linear)⟩]

theorem reachable_copiedAgain : History.Reachable ⟨copiedAgain, [⟨0⟩], [⟨1⟩]⟩ := by
  let laidOut := (Attempt.state Pass.finalizeLayout.run (.ofGraph copiedRow)).graph
  let wider := (laidOut.addTensor "z" .u8 { w := some 4 } .intermediate).2
  have finalized : Layout.finalized copiedRow = [⟨0⟩] := by decide +kernel
  have resolved : History.Reachable ⟨laidOut, [⟨0⟩], []⟩ := by
    have reachable : (History.finalize ⟨copiedRow, [], []⟩ laidOut).Reachable :=
      @History.Reachable.finalizeLayout _ (.ofGraph copiedRow) reachable_copiedRow rfl
    rw [History.finalize, finalized] at reachable
    exact reachable
  have detached : laidOut.detach ⟨0⟩ = .ok ⟨"copy", none, .copy {} (some .linear)⟩ := by
    decide +kernel
  have inserted : wider.addDetached "again" ⟨"copy", none, .copy {} (some .linear)⟩ [⟨1⟩] [⟨2⟩] =
      .ok (⟨1⟩, copiedAgain) := by
    decide +kernel
  have widened : History.Reachable ⟨wider, [⟨0⟩], []⟩ := resolved.addTensor _ _ _ (by decide)
  exact widened.addDetached resolved detached inserted

/-- The second copy passes the last check and is written as one burst, though nothing was ever
finalized about it. -/
theorem not_refuses_copiedAgain :
    ∃ (h : History) (site : Site), h.Reachable ∧ h.graph.Hosts site ∧ site.stage.kind = .copy ∧
      site.id ∉ h.finalized ∧ h.graph.checkStageFinal site.id = .ok () ∧
      h.graph.writeParams site.id .empty = .ok () ⟨#[0, 0, 0, 0, 4, 0, 0, 0]⟩ := by
  obtain ⟨site, hosts, atOne⟩ : ∃ site, copiedAgain.Hosts site ∧ site.id = ⟨1⟩ :=
    reachable_copiedAgain.forget.wellFormed.wired.site_of_mem (by decide)
  have copies : site.stage.kind = .copy :=
    (by decide : ∀ stage ∈ copiedAgain.stages, stage.kind = .copy) _
      (mem_stages_iff.mpr ⟨_, hosts.stage⟩)
  have written : result? (copiedAgain.writeParams ⟨1⟩) .empty =
      some ((), ⟨#[0, 0, 0, 0, 4, 0, 0, 0]⟩) := by
    decide +kernel
  refine ⟨_, site, reachable_copiedAgain, hosts, copies, by simp [atOne], ?_, ?_⟩
  · rw [atOne]
    decide +kernel
  · rw [atOne]
    exact result?_eq_some_iff.mp written

end Graph

end TensorLowering
