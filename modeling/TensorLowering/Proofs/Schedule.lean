import Mathlib.Data.List.Perm.Subperm
import TensorLowering.Graph.Schedule
import TensorLowering.Proofs.Wiring

namespace TensorLowering

theorem mem_insertReady {id other : StageId} {ready : List StageId} :
    other ∈ insertReady id ready ↔ other = id ∨ other ∈ ready := by
  induction ready with
  | nil => simp [insertReady]
  | cons first rest ih =>
    unfold insertReady
    split
    · simp
    · simp [ih, or_left_comm]

theorem insertReady_sorted {id : StageId} {ready : List StageId} (fresh : id ∉ ready)
    (sorted : ready.Pairwise (·.index < ·.index)) :
    (insertReady id ready).Pairwise (·.index < ·.index) := by
  induction ready with
  | nil => simp [insertReady]
  | cons first rest ih =>
    obtain ⟨before, tail⟩ := List.pairwise_cons.mp sorted
    obtain ⟨differs, later⟩ := not_or.mp (mt List.mem_cons.mpr fresh)
    unfold insertReady
    split
    · rename_i less
      refine List.pairwise_cons.mpr ⟨fun other member => ?_, sorted⟩
      rcases List.mem_cons.mp member with rfl | member
      · exact less
      · exact less.trans (before other member)
    · rename_i notLess
      have greater : first.index < id.index := by
        have : id.index ≠ first.index := fun same => differs (by cases id; cases first; simp_all)
        omega
      refine List.pairwise_cons.mpr ⟨fun other member => ?_, ih later tail⟩
      rcases mem_insertReady.mp member with rfl | member
      · exact greater
      · exact before other member

namespace Graph

variable {g : Graph}

/-- Everything that the stage reads is finished once the given stages are. -/
def ReadyAfter (g : Graph) (done : List StageId) (id : StageId) : Prop :=
  ∀ writer, g.Feeds writer id → writer ∈ done

/-- The order names every stage once, behind those that write its inputs. -/
structure Ordered (g : Graph) (order : List StageId) : Prop where
  nodup : order.Nodup
  mem_iff : ∀ id, id ∈ order ↔ id ∈ g.stageIds
  behind : ∀ earlier id later, order = earlier ++ id :: later → g.ReadyAfter earlier id

/-- The frontier after `done`, if the stages with a property are those that wait for nothing. Any
other waits for its one input. -/
structure Tracks (g : Graph) (f : Frontier) (open' : StageId → Prop) (done : List StageId) :
    Prop where
  pending : ∀ id ∈ g.stageIds, (open' id ∧ f.pending[id.index]? = some 0) ∨
    (¬open' id ∧ f.pending[id.index]? = some 1)
  ready : ∀ id, id ∈ f.ready ↔ id ∈ g.stageIds ∧ open' id ∧ id ∉ done
  sorted : f.ready.Pairwise (·.index < ·.index)

/-- The stages were finished one after another, the last one first in the list. -/
structure Released (g : Graph) (done : List StageId) : Prop where
  nodup : done.Nodup
  known : ∀ id ∈ done, id ∈ g.stageIds
  behind : ∀ later id earlier, done = later ++ id :: earlier → g.ReadyAfter earlier id

theorem Feeds.mem_stageIds {writer reader : StageId} (feeds : g.Feeds writer reader)
    (wired : g.Wired) : writer ∈ g.stageIds := by
  obtain ⟨_, _, _, _, _, atTensor, written⟩ := feeds
  obtain ⟨stage, atWriter, _⟩ := (wired.writer atTensor).mp written
  exact Graph.mem_stageIds.mpr (Array.getElem?_eq_some_iff.mp atWriter).1

theorem ReadyAfter.mono {done more : List StageId} {id : StageId} (ready : g.ReadyAfter done id)
    (subset : ∀ id ∈ done, id ∈ more) : g.ReadyAfter more id :=
  fun writer feeds => subset writer (ready writer feeds)

theorem Released.readyAfter {done : List StageId} (released : g.Released done) {id : StageId}
    (member : id ∈ done) : g.ReadyAfter done id := by
  obtain ⟨later, earlier, split⟩ := List.append_of_mem member
  refine (released.behind later id earlier split).mono fun other old => ?_
  simp [split, old]

theorem Released.cons {done : List StageId} (released : g.Released done) {id : StageId}
    (fresh : id ∉ done) (member : id ∈ g.stageIds) (ready : g.ReadyAfter done id) :
    g.Released (id :: done) where
  nodup := List.nodup_cons.mpr ⟨fresh, released.nodup⟩
  known := List.forall_mem_cons.mpr ⟨member, released.known⟩
  behind later other earlier split := by
    cases later with
    | nil =>
      cases split
      exact ready
    | cons last later =>
      cases split
      exact released.behind later other earlier rfl

theorem Tracks.congr {f : Frontier} {first second : StageId → Prop} {done : List StageId}
    (tracks : g.Tracks f first done) (same : ∀ id ∈ g.stageIds, (first id ↔ second id)) :
    g.Tracks f second done where
  pending id member := by
    rw [← same id member]
    exact tracks.pending id member
  ready id := by
    rw [tracks.ready]
    constructor
    · intro found
      obtain ⟨member, first, fresh⟩ := found
      exact ⟨member, (same id member).mp first, fresh⟩
    · intro found
      obtain ⟨member, second, fresh⟩ := found
      exact ⟨member, (same id member).mpr second, fresh⟩
  sorted := tracks.sorted

theorem releaseReader_ok {f : Frontier} {open' : StageId → Prop} {done : List StageId}
    {reader : Site} (tracks : g.Tracks f open' done) (hosts : g.Hosts reader)
    (closed : ¬open' reader.id) (fresh : reader.id ∉ done) :
    ∃ f', g.releaseReader reader.inputId f reader.id = .ok f' ∧
      g.Tracks f' (fun id => open' id ∨ id = reader.id) done := by
  have waiting : f.pending[reader.id.index]? = some 1 := by
    rcases tracks.pending reader.id hosts.mem_stageIds with ⟨opened, _⟩ | ⟨_, waiting⟩
    · exact absurd opened closed
    · exact waiting
  have uses : reader.stage.inputs.count reader.inputId = 1 := by simp [hosts.inputs]
  refine ⟨_, by
    simp only [releaseReader, stage_eq_ok_iff.mpr hosts.stage, bind, Except.bind, uses, waiting,
      Nat.lt_irrefl, if_false, if_true, pure, Except.pure]
    rfl, ?_⟩
  have unlisted : reader.id ∉ f.ready := fun member => closed ((tracks.ready _).mp member).2.1
  constructor
  · intro id member
    have before := tracks.pending id member
    have bound : reader.id.index < f.pending.size := (Array.getElem?_eq_some_iff.mp waiting).1
    by_cases here : id = reader.id
    · refine .inl ⟨.inr here, ?_⟩
      simp [here, bound]
    · have apart : reader.id.index ≠ id.index := fun same => here (by
        cases id; cases h : reader.id; simp_all)
      simpa only [Array.getElem?_setIfInBounds, apart, if_false, here, or_false] using before
  · intro id
    simp only [mem_insertReady, tracks.ready]
    constructor
    · rintro (rfl | ⟨member, holds, fresh⟩)
      · exact ⟨hosts.mem_stageIds, .inr rfl, fresh⟩
      · exact ⟨member, .inl holds, fresh⟩
    · intro found
      obtain ⟨member, holds | rfl, fresh⟩ := found
      · exact .inr ⟨member, holds, fresh⟩
      · exact .inl rfl
  · exact insertReady_sorted unlisted tracks.sorted

theorem releaseReaders_ok (wired : g.Wired) {finished : TensorId} {readers : List StageId}
    {f : Frontier} {open' : StageId → Prop} {done : List StageId}
    (tracks : g.Tracks f open' done) (distinct : readers.Nodup)
    (reads : ∀ reader ∈ readers, ∃ stage, g.stages[reader.index]? = some stage ∧
      finished ∈ stage.inputs)
    (closed : ∀ reader ∈ readers, ¬open' reader) (fresh : ∀ reader ∈ readers, reader ∉ done) :
    ∃ f', readers.foldlM (g.releaseReader finished) f = .ok f' ∧
      g.Tracks f' (fun id => open' id ∨ id ∈ readers) done := by
  induction readers generalizing f open' with
  | nil => exact ⟨f, rfl, tracks.congr (by simp)⟩
  | cons reader rest ih =>
    obtain ⟨notAgain, distinct'⟩ := List.nodup_cons.mp distinct
    simp only [List.forall_mem_cons] at reads closed fresh
    obtain ⟨stage, atReader, read⟩ := reads.1
    obtain ⟨site, hosts, rfl, rfl⟩ := wired.exists_site atReader
    rw [hosts.inputs, List.mem_singleton] at read
    subst read
    obtain ⟨f', released, tracks'⟩ := releaseReader_ok tracks hosts closed.1 fresh.1
    obtain ⟨f'', later, tracks''⟩ := ih tracks' distinct' reads.2 (fun reader member => by
      rintro (opened | rfl)
      · exact closed.2 reader member opened
      · exact notAgain member) fresh.2
    refine ⟨f'', ?_, tracks''.congr fun id _ => by simp [or_assoc]⟩
    simp only [List.foldlM_cons, released, bind, Except.bind]
    exact later

theorem releaseOutputs_ok (wired : g.Wired) {site : Site} (hosts : g.Hosts site) {f : Frontier}
    {done : List StageId} (tracks : g.Tracks f (g.ReadyAfter done) (site.id :: done))
    (fresh : site.id ∉ done) (released : g.Released done) (self : g.ReadyAfter done site.id) :
    ∃ f', g.releaseOutputs f site.id = .ok f' ∧
      g.Tracks f' (g.ReadyAfter (site.id :: done)) (site.id :: done) := by
  have feeds (id : StageId) : id ∈ site.output.consumers ↔ g.Feeds site.id id :=
    hosts.mem_output_consumers_iff wired
  have distinct : site.output.consumers.Nodup :=
    (wired.sorted hosts.output).imp fun {first second} (less : first.index < second.index)
      (same : first = second) => Nat.lt_irrefl _ (same ▸ less)
  obtain ⟨f', lowered, tracks'⟩ := releaseReaders_ok wired tracks distinct
    (fun reader member => (wired.readers hosts.output).mp member)
    (fun reader member opened => fresh (opened _ ((feeds reader).mp member)))
    (fun reader member => by
      have fed := (feeds reader).mp member
      rw [List.mem_cons, not_or]
      constructor
      · rintro rfl
        exact fresh (self _ fed)
      · exact fun old => fresh (released.readyAfter old _ fed))
  refine ⟨f', ?_, tracks'.congr fun id member => ?_⟩
  · simp only [releaseOutputs, stage_eq_ok_iff.mpr hosts.stage, hosts.outputs, List.foldlM_cons,
      List.foldlM_nil, tensor_eq_ok_iff.mpr hosts.output, bind, Except.bind, lowered]
    rfl
  · rw [feeds]
    constructor
    · rintro (before | fed) writer feedsId
      · exact List.mem_cons_of_mem _ (before writer feedsId)
      · obtain ⟨reader, hosts', rfl⟩ := wired.site_of_mem member
        have first := hosts'.feeds_iff.mp fed
        have second := hosts'.feeds_iff.mp feedsId
        rw [first] at second
        cases second
        exact List.mem_cons_self ..
    · intro after
      by_cases fed : g.Feeds site.id id
      · exact .inr fed
      · refine .inl fun writer feedsId => ?_
        rcases List.mem_cons.mp (after writer feedsId) with rfl | old
        · exact absurd feedsId fed
        · exact old

theorem stageIds_sorted : g.stageIds.Pairwise (·.index < ·.index) := by
  simpa [stageIds, List.pairwise_map] using List.pairwise_lt_range

theorem stageIds_nodup : g.stageIds.Nodup :=
  stageIds_sorted.imp fun {first second} (less : first.index < second.index)
    (same : first = second) => Nat.lt_irrefl _ (same ▸ less)

theorem initialFrontier_ok (wired : g.Wired) :
    ∃ f, g.initialFrontier = .ok f ∧ g.Tracks f (g.ReadyAfter []) [] := by
  -- A stage has one input, and waits for it unless nobody writes it.
  have waits (site : Site) (hosts : g.Hosts site) :
      g.countProduced site.stage.inputs = .ok (if site.input.producer.isSome then 1 else 0) := by
    simp only [hosts.inputs, countProduced, tensor_eq_ok_iff.mpr hosts.input, bind, Except.bind]
    rfl
  have counted : g.stages.toList.mapM (fun stage => g.countProduced stage.inputs) =
      .ok (g.stages.toList.map fun stage =>
        (g.countProduced stage.inputs).toOption.getD 0) := by
    refine mapM_eq_ok fun stage member => ?_
    obtain ⟨id, atId⟩ := mem_stages_iff.mp (Array.mem_toList_iff.mp member)
    obtain ⟨site, hosts, -, rfl⟩ := wired.exists_site atId
    rw [waits site hosts]
    rfl
  have pending (site : Site) (hosts : g.Hosts site) :
      (g.stages.toList.map fun stage =>
        (g.countProduced stage.inputs).toOption.getD 0)[site.id.index]? =
          some (if site.input.producer.isSome then 1 else 0) := by
    rw [List.getElem?_map, Array.getElem?_toList, hosts.stage, Option.map_some,
      waits site hosts]
    rfl
  have waiting (site : Site) (hosts : g.Hosts site) :
      g.ReadyAfter [] site.id ↔ site.input.producer = none := by
    simp only [ReadyAfter, hosts.feeds_iff, List.not_mem_nil]
    cases site.input.producer <;> simp
  refine ⟨_, by rw [initialFrontier, counted]; rfl, ⟨fun id member => ?_, fun id => ?_, ?_⟩⟩
  · obtain ⟨site, hosts, rfl⟩ := wired.site_of_mem member
    rw [waiting site hosts, List.getElem?_toArray, pending site hosts]
    cases site.input.producer <;> simp
  · rw [List.mem_filter, and_congr_right_iff]
    intro member
    obtain ⟨site, hosts, rfl⟩ := wired.site_of_mem member
    rw [waiting site hosts, decide_eq_true_eq, pending site hosts]
    cases site.input.producer <;> simp
  · exact stageIds_sorted.filter _

/-- Taking the first of the ready stages never fails. It leaves those of its readers ready that wait
for nothing else. -/
theorem Tracks.take (wired : g.Wired) {f : Frontier} {done rest : List StageId} {next : StageId}
    (tracks : g.Tracks f (g.ReadyAfter done) done) (released : g.Released done)
    (ready : f.ready = next :: rest) :
    ∃ f', g.releaseOutputs { f with ready := rest } next = .ok f' ∧
      g.Tracks f' (g.ReadyAfter (next :: done)) (next :: done) ∧ g.Released (next :: done) := by
  obtain ⟨member, self, fresh⟩ := (tracks.ready next).mp (by simp [ready])
  have sorted := tracks.sorted
  rw [ready, List.pairwise_cons] at sorted
  have taken : g.Tracks { f with ready := rest } (g.ReadyAfter done) (next :: done) := by
    refine ⟨tracks.pending, fun id => ?_, sorted.2⟩
    have before := tracks.ready id
    rw [ready, List.mem_cons] at before
    rw [List.mem_cons, not_or]
    constructor
    · intro later
      obtain ⟨member, opened, old⟩ := before.mp (.inr later)
      exact ⟨member, opened, fun same => Nat.lt_irrefl _ (same ▸ sorted.1 id later), old⟩
    · intro found
      obtain ⟨member, opened, differs, old⟩ := found
      exact (before.mpr ⟨member, opened, old⟩).resolve_left differs
  obtain ⟨site, hosts, rfl⟩ := wired.site_of_mem member
  obtain ⟨f', lowered, tracks'⟩ := releaseOutputs_ok wired hosts taken fresh released self
  exact ⟨f', lowered, tracks', released.cons fresh member self⟩

/-- Draining never fails. It takes as many stages as it may, or as many as there are. -/
theorem drain_ok (wired : g.Wired) (steps : Nat) {f : Frontier} {done : List StageId}
    (tracks : g.Tracks f (g.ReadyAfter done) done) (released : g.Released done) :
    ∃ order reached, g.drain steps f = .ok (order, reached) ∧
      g.Tracks reached (g.ReadyAfter (order.reverse ++ done)) (order.reverse ++ done) ∧
      g.Released (order.reverse ++ done) ∧ (order.length = steps ∨ reached.ready = []) := by
  induction steps generalizing f done with
  | zero => exact ⟨[], f, rfl, tracks, released, .inl rfl⟩
  | succ steps ih =>
    unfold drain
    split
    · rename_i empty
      exact ⟨[], f, rfl, tracks, released, .inr empty⟩
    · rename_i next rest ready
      obtain ⟨f', lowered, tracks', released'⟩ := tracks.take wired released ready
      obtain ⟨order, reached, drained, tracked, finished, all⟩ := ih tracks' released'
      refine ⟨next :: order, reached, ?_, by simpa using tracked, by simpa using finished,
        all.imp (congrArg Nat.succ) id⟩
      simp only [lowered, drained, bind, Except.bind]
      rfl

/-- A well-wired graph has a schedule. -/
theorem Wired.exists_schedule (wired : g.Wired) :
    ∃ order, g.schedule = .ok order ∧ g.Ordered order := by
  obtain ⟨start, started, tracks⟩ := initialFrontier_ok wired
  obtain ⟨order, reached, drained, tracked, released, finished⟩ :=
    drain_ok wired g.stages.size tracks ⟨.nil, by simp, by simp⟩
  rw [List.append_nil] at tracked released
  have nodup : order.Nodup := (List.reverse_perm order).nodup_iff.mp released.nodup
  have length : g.stageIds.length = g.stages.size := by simp [stageIds]
  have known : order ⊆ g.stageIds := fun id member => released.known id (by simpa using member)
  have complete : ∀ id ∈ g.stageIds, id ∈ order := by
    rcases finished with all | empty
    · have perm := (nodup.subperm known).perm_of_length_le (by omega)
      exact fun id member => perm.mem_iff.mpr member
    · -- A stage that is left would have all its writers before it, since ranks grow.
      obtain ⟨rank, grows⟩ := wired.exists_rank
      intro id
      induction hrank : rank id using Nat.strong_induction_on generalizing id with
      | _ _ ih =>
        subst hrank
        intro member
        by_contra left
        have ready := (tracked.ready id).mpr ⟨member, fun writer feeds => ?_, by simpa using left⟩
        · simp [empty] at ready
        · simpa using ih (rank writer) (grows feeds) writer rfl (feeds.mem_stageIds wired)
  have all (id : StageId) : id ∈ order ↔ id ∈ g.stageIds :=
    ⟨fun member => known member, complete id⟩
  have perm := (List.perm_ext_iff_of_nodup nodup stageIds_nodup).mpr all
  refine ⟨order, ?_, nodup, all, ?_⟩
  · simp only [schedule, started, drained, bind, Except.bind]
    exact if_pos (perm.length_eq.trans length)
  · intro earlier id later split
    have ready := released.behind later.reverse id earlier.reverse (by simp [split])
    exact ready.mono (by simp)

theorem Wired.ordered_of_schedule (wired : g.Wired) {order : List StageId}
    (scheduled : g.schedule = .ok order) : g.Ordered order := by
  obtain ⟨order', scheduled', ordered⟩ := wired.exists_schedule
  rw [scheduled, Except.ok.injEq] at scheduled'
  exact scheduled' ▸ ordered

theorem Ordered.perm {order : List StageId} (ordered : g.Ordered order) : order.Perm g.stageIds :=
  (List.perm_ext_iff_of_nodup ordered.nodup stageIds_nodup).mpr ordered.mem_iff

theorem Ordered.length_eq {order : List StageId} (ordered : g.Ordered order) :
    order.length = g.stages.size := by
  simpa [stageIds] using ordered.perm.length_eq

/-- A stage stands in one place: not before and not behind itself, and what stands before it does
not stand behind it. -/
theorem Ordered.apart {order earlier later : List StageId} {id : StageId}
    (ordered : g.Ordered order) (split : order = earlier ++ id :: later) :
    id ∉ earlier ∧ id ∉ later ∧ ∀ other ∈ earlier, other ∉ later := by
  have nodup := ordered.nodup
  rw [split, List.nodup_append, List.nodup_cons] at nodup
  obtain ⟨-, ⟨behind, -⟩, apart⟩ := nodup
  exact ⟨fun before => apart id before id (List.mem_cons_self ..) rfl, behind,
    fun other before after => apart other before other (List.mem_cons_of_mem _ after) rfl⟩

/-- The readers of what a stage writes come behind it. -/
theorem Ordered.mem_of_feeds {order earlier later : List StageId} {id reader : StageId}
    (ordered : g.Ordered order) (split : order = earlier ++ id :: later)
    (feeds : g.Feeds id reader) : reader ∈ later := by
  have scheduled : reader ∈ order := by
    obtain ⟨stage, _, _, atReader, _⟩ := feeds
    exact (ordered.mem_iff reader).mpr (mem_stageIds.mpr (Array.getElem?_eq_some_iff.mp atReader).1)
  have fresh := (ordered.apart split).1
  rw [split, List.mem_append, List.mem_cons] at scheduled
  rcases scheduled with before | rfl | after
  · obtain ⟨first, second, split'⟩ := List.append_of_mem before
    have ready := ordered.behind first reader (second ++ id :: later) (by simp [split, split'])
    exact absurd (split' ▸ List.mem_append_left _ (ready id feeds)) fresh
  · exact absurd (ordered.behind earlier reader later split reader feeds) fresh
  · exact after

/-- Stages can take turns so that readers come before writers, in no more turns than there are
stages. -/
theorem Wired.exists_turn (wired : g.Wired) :
    ∃ turn : StageId → Nat, (∀ id, turn id ≤ g.stages.size) ∧
      ∀ {writer reader : StageId}, g.Feeds writer reader → turn reader < turn writer := by
  obtain ⟨order, -, ordered⟩ := wired.exists_schedule
  refine ⟨fun id => order.reverse.idxOf id, fun id => ?_, fun {writer reader} feeds => ?_⟩
  · rw [← ordered.length_eq, ← List.length_reverse]
    exact List.idxOf_le_length
  · have member := (ordered.mem_iff writer).mpr (feeds.mem_stageIds wired)
    obtain ⟨earlier, later, split⟩ := List.append_of_mem member
    have behind : reader ∈ later.reverse := by simpa using ordered.mem_of_feeds split feeds
    have fresh : writer ∉ later.reverse := by simpa using (ordered.apart split).2.1
    have split' : order.reverse = later.reverse ++ writer :: earlier.reverse := by simp [split]
    simp only [split', List.idxOf_append_of_mem behind, List.idxOf_append_of_notMem fresh]
    exact (List.idxOf_lt_length_of_mem behind).trans_le (Nat.le_add_right _ _)

end Graph

end TensorLowering
