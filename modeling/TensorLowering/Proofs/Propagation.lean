import TensorLowering.Proofs.Scaling

namespace TensorLowering

open Attempt TensorLowering.Graph Ieee

namespace Graph

theorem idle_of_validate {g : Graph} (valid : g.validate = .ok ()) : g.Idle := by
  intro id tensor atId role none
  obtain ⟨writer, written⟩ := isSome_producer_of_validate valid atId role
  rw [none] at written
  cases written

end Graph

namespace Scale

variable {g : Graph} {inputScales : TensorMap Float32} {s : TensorId → Float32}

/-- The scale that a network input starts with: the configured one, unless it has an equal one. -/
def startScale (g : Graph) (inputScales : TensorMap Float32) (id : TensorId) : Float32 :=
  keepEqual (g.scale id) (givenScale inputScales id)

/-- How far the scales have been carried. A network input keeps its start until a sole nonlinear
reader has its way, a stage that was visited has its scale on both sides, and what is not written
yet has the scale it came with. -/
structure Carries (g : Graph) (inputScales : TensorMap Float32) (visited : List StageId)
    (s : TensorId → Float32) : Prop where
  wired : g.Wired
  idle : g.Idle
  numbers : ∀ id, givenScale inputScales id == givenScale inputScales id
  waiting : ∀ {id : TensorId} {tensor : Tensor}, g.tensors[id.index]? = some tensor →
    tensor.role = .input → (∀ reader, g.soleNonlinearReader? id = some reader → reader ∉ visited) →
      s id = startScale g inputScales id
  served : ∀ {id : TensorId} {tensor : Tensor} {reader : StageId},
    g.tensors[id.index]? = some tensor → tensor.role = .input →
      g.soleNonlinearReader? id = some reader → reader ∈ visited → s id = 1.0
  written : ∀ {site : Site}, g.Hosts site → site.id ∈ visited →
    s site.outputId = keepEqual (g.scale site.outputId) (carried s site)
  taken : ∀ {site : Site}, g.Hosts site → site.id ∈ visited → s site.inputId == carried s site
  untouched : ∀ {id : TensorId} {tensor : Tensor}, g.tensors[id.index]? = some tensor →
    tensor.role ≠ .input → (∀ site, g.Hosts site → site.id ∈ visited → site.outputId ≠ id) →
      s id = g.scale id

section

variable {visited later order : List StageId} {site : Site} {root id : TensorId}

theorem Carries.of_mem_iff (carries : Carries g inputScales visited s)
    (same : ∀ id, id ∈ visited ↔ id ∈ order) : Carries g inputScales order s where
  wired := carries.wired
  idle := carries.idle
  numbers := carries.numbers
  waiting atId role unread := carries.waiting atId role fun reader sole member =>
    unread reader sole ((same reader).mp member)
  served atId role sole member := carries.served atId role sole ((same _).mpr member)
  written hosts member := carries.written hosts ((same _).mpr member)
  taken hosts member := carries.taken hosts ((same _).mpr member)
  untouched atId role unwritten := carries.untouched atId role fun site hosts member =>
    unwritten site hosts ((same _).mp member)

theorem Carries.beq_start (carries : Carries g inputScales visited s) (id : TensorId) :
    startScale g inputScales id == givenScale inputScales id :=
  keepEqual_beq _ (carries.numbers id)

theorem Carries.beq_written (carries : Carries g inputScales visited s) (hosts : g.Hosts site)
    (member : site.id ∈ visited) : s site.outputId == carried s site := by
  rw [carries.written hosts member]
  exact keepEqual_beq _ (beq_self_of_beq (BEq.symm (carries.taken hosts member)))

/-- A tensor that no stage still has to write has a number for its scale. -/
theorem Carries.number (carries : Carries g inputScales visited s) {tensor : Tensor}
    (atId : g.tensors[id.index]? = some tensor)
    (ready : ∀ writer, g.Hosts writer → writer.outputId = id → writer.id ∈ visited) :
    s id == s id := by
  by_cases role : tensor.role = .input
  · by_cases read : ∃ reader, g.soleNonlinearReader? id = some reader ∧ reader ∈ visited
    · obtain ⟨reader, sole, member⟩ := read
      rw [carries.served atId role sole member]
      exact one_beq_one
    · push Not at read
      rw [carries.waiting atId role read]
      exact beq_self_of_beq (carries.beq_start id)
  · cases written : tensor.producer with
    | none =>
      rw [carries.untouched atId role fun writer hosts _ same => ?_, scale, atId]
      · simp only [Option.elim_some, carries.idle id tensor atId role written]
        exact one_beq_one
      · have producer := hosts.producer_eq carries.wired
        subst same
        rw [hosts.output] at atId
        cases atId
        rw [written] at producer
        cases producer
    | some writer =>
      obtain ⟨site, hosts, rfl, rfl⟩ := carries.wired.site_of_producer_eq atId written
      exact beq_self_of_beq (carries.beq_written hosts (ready site hosts rfl))

theorem Carries.number_input (carries : Carries g inputScales visited s) (ordered : g.Ordered order)
    (split : order = visited ++ site.id :: later) (hosts : g.Hosts site) :
    s site.inputId == s site.inputId :=
  carries.number hosts.input fun _ hosts' same =>
    ordered.behind _ _ _ split _ ((hosts'.feeds_iff_inputId hosts carries.wired).mpr same.symm)

/-- A stage that takes its input either finds its scale there or is the sole nonlinear reader of a
network input, which then becomes unscaled. -/
theorem Takes.cases_at (takes : Takes s site) (hosts : g.Hosts site)
    (number : s site.inputId == s site.inputId) :
    (s site.inputId == carried s site ∧ advance s site site.inputId = s site.inputId) ∨
      site.input.role = .input ∧ g.soleNonlinearReader? site.inputId = some site.id ∧
        carried s site = 1.0 ∧ ¬s site.inputId == 1.0 ∧ advance s site site.inputId = 1.0 := by
  have here : advance s site site.inputId = keepEqual (s site.inputId) (carried s site) :=
    adjust_of_mem (by simp)
  by_cases agrees : s site.inputId == carried s site
  · exact .inl ⟨agrees, here.trans (if_pos agrees)⟩
  · obtain ⟨role, alone⟩ := takes.resolve_left agrees
    have nonlinear : site.stage.isNonlinear := by
      by_contra linear
      rw [carried_of_linear (by simpa using linear)] at agrees
      exact agrees number
    have one : carried s site = 1.0 := carried_of_nonlinear nonlinear
    rw [one] at agrees here
    exact .inr ⟨role, hosts.soleNonlinearReader?_eq nonlinear alone, one, agrees,
      here.trans (keepEqual_of_nonzero _ (by decide))⟩

/-- What the next stage writes has still the scale that it came with. -/
theorem Carries.output_eq (carries : Carries g inputScales visited s) (ordered : g.Ordered order)
    (split : order = visited ++ site.id :: later) (hosts : g.Hosts site) :
    s site.outputId = g.scale site.outputId := by
  refine carries.untouched hosts.output (fun role => ?_) fun writer hosts' member same => ?_
  · exact hosts.ne_outputId carries.wired hosts.output role rfl
  · have same := hosts'.id_eq_of_outputId_eq hosts carries.wired same
    exact (ordered.apart split).1 (same ▸ member)

/-- Only the sole nonlinear reader of a network input changes a scale besides that of its output. -/
theorem Carries.advance_eq (carries : Carries g inputScales visited s) (ordered : g.Ordered order)
    (split : order = visited ++ site.id :: later) (hosts : g.Hosts site) (takes : Takes s site)
    (output : id ≠ site.outputId)
    (other : id = site.inputId → site.input.role = .input →
      g.soleNonlinearReader? site.inputId ≠ some site.id) : advance s site id = s id := by
  by_cases input : id = site.inputId
  · subst input
    rcases takes.cases_at hosts (carries.number_input ordered split hosts) with agrees | changed
    · exact agrees.2
    · exact absurd changed.2.1 (other rfl changed.1)
  · exact adjust_of_notMem (by simp [input, output])

theorem Carries.advance_input (carries : Carries g inputScales visited s) (ordered : g.Ordered order)
    (split : order = visited ++ site.id :: later) (hosts : g.Hosts site) (takes : Takes s site)
    {other : Site} (hosts' : g.Hosts other) (member : other.id ∈ visited) :
    advance s site other.inputId = s other.inputId := by
  refine carries.advance_eq ordered split hosts takes (fun same => ?_) fun same role sole => ?_
  · have feeds := (hosts.feeds_iff_inputId hosts' carries.wired).mpr same
    exact (ordered.apart split).2.2 _ member (ordered.mem_of_feeds split feeds)
  · rw [← same] at sole
    have reads := (hosts'.of_soleNonlinearReader? carries.wired sole).1
    exact (ordered.apart split).1 (reads ▸ member)

/-- The scale that a stage carries stays once the stage was visited. -/
theorem Carries.carried_advance (carries : Carries g inputScales visited s)
    (ordered : g.Ordered order) (split : order = visited ++ site.id :: later) (hosts : g.Hosts site)
    (takes : Takes s site) {other : Site} (hosts' : g.Hosts other)
    (member : other.id ∈ visited ++ [site.id]) :
    carried (advance s site) other = carried s other := by
  have congr (same : advance s site other.inputId = s other.inputId) :
      carried (advance s site) other = carried s other := by
    simp only [carried, same]
  rcases List.mem_append.mp member with old | last
  · exact congr (carries.advance_input ordered split hosts takes hosts' old)
  · obtain rfl := hosts'.unique hosts (List.mem_singleton.mp last)
    rcases takes.cases_at hosts (carries.number_input ordered split hosts) with
      agrees | ⟨-, sole, one, -⟩
    · exact congr agrees.2
    · rw [one, carried_of_nonlinear (hosts.of_soleNonlinearReader? carries.wired sole).2.1]

/-- One stage more. -/
theorem Carries.step (carries : Carries g inputScales visited s) (ordered : g.Ordered order)
    (split : order = visited ++ site.id :: later) (hosts : g.Hosts site) (takes : Takes s site) :
    Carries g inputScales (visited ++ [site.id]) (advance s site) := by
  have wired := carries.wired
  have fresh := (ordered.apart split).1
  have atInput := takes.cases_at hosts (carries.number_input ordered split hosts)
  have kept {id : TensorId} (output : id ≠ site.outputId)
      (other : id = site.inputId → site.input.role = .input →
        g.soleNonlinearReader? site.inputId ≠ some site.id) : advance s site id = s id :=
    carries.advance_eq ordered split hosts takes output other
  have same {other : Site} (hosts' : g.Hosts other) (member : other.id ∈ visited ++ [site.id]) :
      carried (advance s site) other = carried s other :=
    carries.carried_advance ordered split hosts takes hosts' member
  refine ⟨wired, carries.idle, carries.numbers, ?_, ?_, ?_, ?_, ?_⟩
  case refine_1 =>
    intro id tensor atId role unread
    rw [kept (hosts.ne_outputId wired atId role) fun input _ sole => ?_]
    · exact carries.waiting atId role fun reader sole member =>
        unread reader sole (List.mem_append_left _ member)
    · exact unread site.id (input ▸ sole) (by simp)
  case refine_2 =>
    intro id tensor reader atId role sole member
    rcases List.mem_append.mp member with old | last
    · rw [kept (hosts.ne_outputId wired atId role) fun input _ sole' => ?_]
      · exact carries.served atId role sole old
      · rw [input, sole'] at sole
        exact fresh (Option.some.inj sole ▸ old)
    · rw [List.mem_singleton.mp last] at sole
      obtain rfl := hosts.inputId_of_sole wired sole
      have nonlinear := (hosts.of_soleNonlinearReader? wired sole).2.1
      rcases atInput with agrees | changed
      · rw [agrees.2]
        exact eq_one_of_beq (carried_of_nonlinear nonlinear ▸ agrees.1)
      · exact changed.2.2.2.2
  case refine_3 =>
    intro writer hosts' member
    rcases List.mem_append.mp member with old | last
    · have differs : writer.outputId ≠ site.outputId := fun same =>
        fresh (hosts'.id_eq_of_outputId_eq hosts wired same ▸ old)
      rw [same hosts' member, ← carries.written hosts' old]
      refine kept differs fun input role _ => ?_
      exact absurd input.symm (hosts'.ne_outputId wired hosts.input role)
    · obtain rfl := hosts'.unique hosts (List.mem_singleton.mp last)
      rw [same hosts' member, ← carries.output_eq ordered split hosts']
      exact adjust_of_mem (by simp)
  case refine_4 =>
    intro reader hosts' member
    rcases List.mem_append.mp member with old | last
    · rw [same hosts' member, carries.advance_input ordered split hosts takes hosts' old]
      exact carries.taken hosts' old
    · obtain rfl := hosts'.unique hosts (List.mem_singleton.mp last)
      rw [same hosts' member]
      rcases atInput with agrees | ⟨-, -, one, -, changed⟩
      · rw [agrees.2]
        exact agrees.1
      · rw [changed, one]
        exact one_beq_one
  case refine_5 =>
    intro id tensor atId role unwritten
    have output : id ≠ site.outputId := fun same => unwritten site hosts (by simp) same.symm
    rw [kept output fun input role' => ?_]
    · exact carries.untouched atId role fun writer hosts' member =>
        unwritten writer hosts' (List.mem_append_left _ member)
    · rw [input, hosts.input] at atId
      cases atId
      exact absurd role' role

/-- Where everything before a tensor was visited, it has the effective scale of the network input
that it comes from, unless it is this input and its sole nonlinear reader is still to come. -/
theorem Carries.beq_effectiveScale_of_visited (carries : Carries g inputScales visited s)
    (closed : ∀ reader ∈ visited, ∀ writer, g.Feeds writer reader → writer ∈ visited)
    (starts : g.StartsAt root id)
    (ready : ∀ writer, g.Hosts writer → writer.outputId = id → writer.id ∈ visited) :
    s id == g.effectiveScale inputScales root ∨
      ∃ reader, id = root ∧ g.soleNonlinearReader? id = some reader ∧ reader ∉ visited := by
  induction starts with
  | @source tensor atRoot role =>
    cases sole : g.soleNonlinearReader? root with
    | none =>
      rw [effectiveScale_of_none sole, carries.waiting atRoot role (by simp [sole])]
      exact .inl (carries.beq_start root)
    | some reader =>
      by_cases member : reader ∈ visited
      · rw [effectiveScale_of_sole sole, carries.served atRoot role sole member]
        exact .inl one_beq_one
      · exact .inr ⟨reader, rfl, rfl, member⟩
  | @through site hosts starts ih =>
    have member := ready site hosts rfl
    have input : s site.inputId == g.effectiveScale inputScales root := by
      refine (ih fun writer hosts' same => ?_).resolve_right ?_
      · exact closed _ member _ ((hosts'.feeds_iff_inputId hosts carries.wired).mpr same.symm)
      · rintro ⟨reader, -, sole, late⟩
        exact late ((hosts.of_soleNonlinearReader? carries.wired sole).1 ▸ member)
    have output := carries.beq_written hosts member
    exact .inl (BEq.trans output (BEq.trans (BEq.symm (carries.taken hosts member)) input))

end

theorem Carries.beq_effectiveScale (carries : Carries g inputScales g.stageIds s)
    {root id : TensorId} (starts : g.StartsAt root id) :
    s id == g.effectiveScale inputScales root := by
  refine (carries.beq_effectiveScale_of_visited (fun _ _ _ feeds =>
    feeds.mem_stageIds carries.wired) starts fun _ hosts _ => hosts.mem_stageIds).resolve_right ?_
  rintro ⟨reader, -, sole, late⟩
  obtain ⟨-, stage, atReader, -⟩ := soleNonlinearReader?_eq_some_iff.mp sole
  exact late (mem_stageIds.mpr (Array.getElem?_eq_some_iff.mp atReader).1)

theorem Carries.unscaled (carries : Carries g inputScales g.stageIds s) {site : Site}
    (hosts : g.Hosts site) (member : site.id ∈ g.stageIds) (nonlinear : site.stage.isNonlinear)
    {root : TensorId} (starts : g.StartsAt root site.inputId) :
    g.effectiveScale inputScales root == 1.0 := by
  rw [← carried_of_nonlinear (s := s) nonlinear]
  exact BEq.trans (BEq.symm (carries.beq_effectiveScale starts)) (carries.taken hosts member)

/-- Some kernel that takes unscaled values only is behind a network input that stays scaled. -/
def Obstructed (g : Graph) (inputScales : TensorMap Float32) : Prop :=
  ∃ site root, g.Hosts site ∧ site.stage.isNonlinear ∧ g.StartsAt root site.inputId ∧
    g.effectiveScale inputScales root != 1.0

theorem Carries.not_obstructed (carries : Carries g inputScales g.stageIds s) :
    ¬Obstructed g inputScales := by
  intro obstructed
  obtain ⟨site, root, hosts, nonlinear, starts, scaled⟩ := obstructed
  have unscaled := carries.unscaled hosts hosts.mem_stageIds nonlinear starts
  simp [bne, unscaled] at scaled

/-- Starting the network inputs gives them their configured scales and changes nothing else. -/
theorem start_rescale (g : Graph) (inputScales : TensorMap Float32) :
    (sweep (fun id => set id ((inputScales.get? id).getD 1.0)) (g.tensorsWith .input)).Ensures g
      (fun count after => ∃ s, after = g.rescale s ∧
        (∀ id, s id = if id ∈ g.tensorsWith .input then startScale g inputScales id else g.scale id) ∧
        (count = 0 ↔ ∀ id ∈ g.tensorsWith .input, g.scale id == givenScale inputScales id))
      fun _ _ => False := by
  have apart : (g.tensorsWith .input).Nodup := tensorIds_nodup.filter _
  refine Ensures.sweep (fun treated count now => ∃ s, now = g.rescale s ∧
    (∀ id, s id = if id ∈ treated then startScale g inputScales id else g.scale id) ∧
    (count = 0 ↔ ∀ id ∈ treated, g.scale id == givenScale inputScales id)) ?_ ?_
  · exact ⟨g.scale, (rescale_scale g).symm, by simp, by simp⟩
  · intro treated id later count now split reached
    obtain ⟨s, rfl, started, counted⟩ := reached
    have member : id ∈ g.tensorsWith .input := by simp [split]
    have known := mem_tensorIds.mp (List.mem_filter.mp member).1
    have fresh : id ∉ treated := by
      rw [split, List.nodup_append] at apart
      exact fun old => apart.2.2 id old id (List.mem_cons_self ..) rfl
    have here : s id = g.scale id := by rw [started, if_neg fresh]
    unfold Ensures
    rw [set_rescale known]
    refine ⟨_, rfl, fun other => ?_, ?_⟩
    · by_cases same : other = id
      · subst same
        rw [Function.update_self, here, if_pos (by simp)]
        rfl
      · rw [Function.update_of_ne same, started]
        simp [same]
    · rw [here, Nat.add_eq_zero_iff, counted, List.forall_mem_append, List.forall_mem_singleton]
      refine and_congr_right fun _ => ?_
      change (if g.scale id == givenScale inputScales id then 0 else 1) = 0 ↔ _
      split <;> simp_all

/-- Before any stage was visited. -/
theorem Carries.start (wired : g.Wired) (idle : g.Idle)
    (numbers : ∀ id, givenScale inputScales id == givenScale inputScales id)
    (started : ∀ id, s id =
      if id ∈ g.tensorsWith .input then startScale g inputScales id else g.scale id) :
    Carries g inputScales [] s where
  wired := wired
  idle := idle
  numbers := numbers
  waiting {id tensor} atId role _ := by
    rw [started, if_pos]
    refine List.mem_filter.mpr ⟨?_, by simp [atId, role]⟩
    exact mem_tensorIds.mpr (Array.getElem?_eq_some_iff.mp atId).1
  served _ _ _ member := by cases member
  written _ member := by cases member
  taken _ member := by cases member
  untouched {id tensor} atId role _ := by
    rw [started, if_neg fun member => role ?_]
    simpa [atId] using (List.mem_filter.mp member).2

/-- Nothing was counted at the stages: what they write had its scale before, and none of them makes
a network input unscaled. -/
def Uncounted (g : Graph) (inputScales : TensorMap Float32) (visited : List StageId)
    (s : TensorId → Float32) : Prop :=
  ∀ site, g.Hosts site → site.id ∈ visited → g.scale site.outputId == carried s site ∧
    ¬(site.input.role = .input ∧ g.soleNonlinearReader? site.inputId = some site.id ∧
      ¬startScale g inputScales site.inputId == 1.0)

/-- Some kernel that takes unscaled values only is not reached by them. -/
def Refuses (g : Graph) (inputScales : TensorMap Float32) : Prop :=
  ∃ site, g.Hosts site ∧ site.stage.isNonlinear ∧
    ∀ root, g.StartsAt root site.inputId → g.effectiveScale inputScales root != 1.0

section

variable {visited later order : List StageId} {site : Site}

theorem Carries.uncounted_step (carries : Carries g inputScales visited s)
    (ordered : g.Ordered order) (split : order = visited ++ site.id :: later) (hosts : g.Hosts site)
    {count : Nat} {after : Graph} (advanced : Advanced g s site count after) :
    Uncounted g inputScales (visited ++ [site.id]) (advance s site) ↔
      Uncounted g inputScales visited s ∧ count = 0 := by
  have takes := advanced.takes
  have here : s site.inputId == carried s site ↔
      ¬(site.input.role = .input ∧ g.soleNonlinearReader? site.inputId = some site.id ∧
        ¬startScale g inputScales site.inputId == 1.0) := by
    have waits (role : site.input.role = .input)
        (sole : g.soleNonlinearReader? site.inputId = some site.id) :
        s site.inputId = startScale g inputScales site.inputId := by
      refine carries.waiting hosts.input role fun reader sole' => ?_
      rw [sole] at sole'
      exact Option.some.inj sole' ▸ (ordered.apart split).1
    rcases takes.cases_at hosts (carries.number_input ordered split hosts) with
      agrees | ⟨role, sole, one, scaled, -⟩
    · refine iff_of_true agrees.1 fun changed => changed.2.2 ?_
      obtain ⟨role, sole, -⟩ := changed
      have nonlinear := (hosts.of_soleNonlinearReader? carries.wired sole).2.1
      rw [← waits role sole, ← carried_of_nonlinear (s := s) nonlinear]
      exact agrees.1
    · rw [one]
      exact iff_of_false scaled fun unchanged => unchanged ⟨role, sole, waits role sole ▸ scaled⟩
  rw [advanced.counted, here, carries.output_eq ordered split hosts]
  constructor
  · intro all
    refine ⟨fun other hosts' member => ?_, ?_⟩
    · have member := List.mem_append_left [site.id] member
      rw [← carries.carried_advance ordered split hosts takes hosts' member]
      exact all other hosts' member
    · obtain ⟨output, input⟩ := all site hosts (by simp)
      rw [carries.carried_advance ordered split hosts takes hosts (by simp)] at output
      exact ⟨input, output⟩
  · intro both other hosts' member
    obtain ⟨before, input, output⟩ := both
    rw [carries.carried_advance ordered split hosts takes hosts' member]
    rcases List.mem_append.mp member with old | last
    · exact before other hosts' old
    · obtain rfl := hosts'.unique hosts (List.mem_singleton.mp last)
      exact ⟨output, input⟩

/-- A stage that does not get its way takes unscaled values only, and every network input behind it
is scaled. -/
theorem Carries.refuses (carries : Carries g inputScales visited s) (ordered : g.Ordered order)
    (split : order = visited ++ site.id :: later) (hosts : g.Hosts site) (refused : ¬Takes s site) :
    Refuses g inputScales := by
  have number := carries.number_input ordered split hosts
  have nonlinear : site.stage.isNonlinear := by
    by_contra linear
    exact refused (takes_of_linear (by simpa using linear) number)
  refine ⟨site, hosts, nonlinear, fun root starts => ?_⟩
  have found := carries.beq_effectiveScale_of_visited (fun reader member writer feeds => ?_) starts
    fun writer hosts' same => ?_
  · rcases found with agrees | ⟨reader, same, sole, -⟩
    · by_contra unscaled
      refine refused (.inl ?_)
      rw [carried_of_nonlinear nonlinear]
      exact BEq.trans agrees (by simpa [bne] using unscaled)
    · obtain ⟨rfl, -, alone⟩ := hosts.of_soleNonlinearReader? carries.wired sole
      obtain ⟨tensor, atRoot, role⟩ := starts.exists_input
      rw [← same, hosts.input] at atRoot
      cases atRoot
      exact absurd (.inr ⟨role, alone⟩) refused
  · obtain ⟨first, second, split'⟩ := List.append_of_mem member
    have ready := ordered.behind first reader (second ++ site.id :: later) (by simp [split, split'])
    rw [split']
    exact List.mem_append_left _ (ready writer feeds)
  · exact ordered.behind _ _ _ split _ ((hosts'.feeds_iff_inputId hosts carries.wired).mpr same.symm)

end

/-- Carrying the scales through a graph reaches the scales of each network input and of each stage,
and counts nothing exactly if it changes nothing on the way. It fails only at a kernel that takes
unscaled values only. -/
theorem propagate_exact (wired : g.Wired) (idle : g.Idle)
    (numbers : ∀ id, givenScale inputScales id == givenScale inputScales id) :
    (propagate inputScales).Ensures g
      (fun count after => ∃ s, after = g.rescale s ∧ Carries g inputScales g.stageIds s ∧
        (count = 0 ↔ (∀ id ∈ g.tensorsWith .input, g.scale id == givenScale inputScales id) ∧
          Uncounted g inputScales g.stageIds s))
      fun error _ => Mismatch error ∧ Refuses g inputScales := by
  rw [propagate, ensures_bind, ensures_get, ensures_bind]
  refine (start_rescale g inputScales).mono ?_ fun _ _ => False.elim
  intro begun now found
  obtain ⟨s, rfl, started, begins⟩ := found
  obtain ⟨order, scheduled, ordered⟩ :=
    (wired.of_undecided_eq (undecided_rescale g s)).exists_schedule
  -- Scales have no part in the order, so what follows can speak of the graph before all along.
  have ordered := ordered.of_undecided_eq (undecided_rescale g s).symm
  refine .ask_bind scheduled ?_
  simp only [ensures_bind, ensures_pure]
  refine (Ensures.sweep (fun visited count now => ∃ s, now = g.rescale s ∧
    Carries g inputScales visited s ∧ (count = 0 ↔ Uncounted g inputScales visited s))
    ?_ ?_).mono ?_ fun _ _ => id
  · exact ⟨s, rfl, .start wired idle numbers started, by simp [Uncounted]⟩
  · intro visited id later count now split found
    obtain ⟨s, rfl, carries, counted⟩ := found
    have member : id ∈ g.stageIds := (ordered.mem_iff id).mp (by simp [split])
    obtain ⟨site, hosts, rfl⟩ := wired.site_of_mem member
    have number := carries.number_input ordered split hosts
    refine (propagateThrough_rescale wired hosts number inputScales).mono ?_ ?_
    · intro here after advanced
      refine ⟨_, advanced.scales, carries.step ordered split hosts advanced.takes, ?_⟩
      rw [Nat.add_eq_zero_iff, counted, carries.uncounted_step ordered split hosts advanced]
    · intro error _ refused
      exact ⟨refused.1, carries.refuses ordered split hosts refused.2⟩
  · intro count after found
    obtain ⟨s, rfl, carries, counted⟩ := found
    have all : ∀ id, id ∈ order ↔ id ∈ g.stageIds := ordered.mem_iff
    refine ⟨s, rfl, carries.of_mem_iff all, ?_⟩
    rw [Nat.add_eq_zero_iff, begins, counted]
    simp only [Uncounted, all]

/-- Carrying the scales through succeeds exactly if nothing is obstructed. -/
theorem propagate_carries (wired : g.Wired) (valid : g.validate = .ok ())
    (numbers : ∀ id, givenScale inputScales id == givenScale inputScales id) :
    (propagate inputScales).Ensures g
      (fun _ after => ∃ s, after = g.rescale s ∧ Carries g inputScales g.stageIds s)
      fun error _ => Mismatch error ∧ Obstructed g inputScales := by
  refine (propagate_exact wired (idle_of_validate valid) numbers).mono ?_ ?_
  · intro _ after found
    obtain ⟨s, same, carries, -⟩ := found
    exact ⟨s, same, carries⟩
  · intro error _ refused
    obtain ⟨mismatch, site, hosts, nonlinear, scaled⟩ := refused
    obtain ⟨root, starts⟩ :=
      exists_startsAt wired valid (Array.getElem?_eq_some_iff.mp hosts.input).1
    exact ⟨mismatch, site, root, hosts, nonlinear, starts, scaled root starts⟩

end Scale

end TensorLowering
