import TensorLowering.Proofs.Reachable

/-!
Ready stages are taken lowest handle first. At the first place where another order differs from the
schedule, both stages could have come next, so the schedule has the lower one.
-/

namespace TensorLowering.Graph

variable {g : Graph}

/-- Of the stages that may follow those in `done`, the order takes the one with the lowest handle,
and goes on like that. -/
def Earliest (g : Graph) (done : List StageId) : List StageId → Prop
  | [] => True
  | next :: later =>
    (∀ id ∈ g.stageIds, g.ReadyAfter done id → id ∉ done → next.index ≤ id.index) ∧
      g.Earliest (next :: done) later

theorem Tracks.index_le {f : Frontier} {done rest : List StageId} {next id : StageId}
    (tracks : g.Tracks f (g.ReadyAfter done) done) (ready : f.ready = next :: rest)
    (member : id ∈ g.stageIds) (opened : g.ReadyAfter done id) (fresh : id ∉ done) :
    next.index ≤ id.index := by
  have waiting : id ∈ f.ready := (tracks.ready id).mpr ⟨member, opened, fresh⟩
  have sorted := tracks.sorted
  rw [ready, List.pairwise_cons] at sorted
  rw [ready, List.mem_cons] at waiting
  rcases waiting with rfl | later
  · exact Nat.le_refl _
  · exact (sorted.1 id later).le

theorem earliest_of_drain (wired : g.Wired) {steps : Nat} {f reached : Frontier}
    {done order : List StageId} (tracks : g.Tracks f (g.ReadyAfter done) done)
    (released : g.Released done) (drained : g.drain steps f = .ok (order, reached)) :
    g.Earliest done order := by
  induction steps generalizing f done order with
  | zero =>
    cases drained
    trivial
  | succ steps ih =>
    unfold drain at drained
    split at drained
    · cases drained
      trivial
    · rename_i next rest ready
      obtain ⟨f', lowered, tracks', released'⟩ := tracks.take wired released ready
      simp only [lowered, bind_eq_ok, Except.ok.injEq, exists_eq_left'] at drained
      obtain ⟨⟨later, last⟩, drained', same⟩ := drained
      cases same
      exact ⟨fun id member opened fresh => tracks.index_le ready member opened fresh,
        ih tracks' released' drained'⟩

/-- No order of the same length that may follow `done` comes before the earliest one. -/
theorem Earliest.lex {done order other : List StageId} (earliest : g.Earliest done order)
    (length : order.length = other.length)
    (valid : ∀ earlier id later, other = earlier ++ id :: later → id ∈ g.stageIds ∧
      g.ReadyAfter (earlier.reverse ++ done) id ∧ id ∉ earlier.reverse ++ done) :
    order = other ∨ List.Lex (fun first second => first.index < second.index) order other := by
  induction order generalizing done other with
  | nil => exact .inl (List.length_eq_zero_iff.mp length.symm).symm
  | cons next later ih =>
    obtain ⟨lowest, earliest'⟩ := earliest
    obtain ⟨id, rest, rfl⟩ := List.exists_cons_of_length_eq_add_one length.symm
    obtain ⟨member, opened, fresh⟩ := valid [] id rest rfl
    rcases (lowest id member opened fresh).eq_or_lt with same | less
    · obtain rfl : next = id := by
        cases next
        cases id
        simpa using same
      have valid' : ∀ earlier id later, rest = earlier ++ id :: later → id ∈ g.stageIds ∧
          g.ReadyAfter (earlier.reverse ++ next :: done) id ∧
            id ∉ earlier.reverse ++ next :: done := by
        intro earlier id later split
        simpa using valid (next :: earlier) id later (by rw [split, List.cons_append])
      exact (ih earliest' (Nat.succ.inj length) valid').imp (congrArg (next :: ·)) .cons
    · exact .inr (.rel less)

/-- Once no stage is ready, further steps change nothing. -/
theorem drain_of_le {steps more : Nat} {f reached : Frontier} {order : List StageId}
    (drained : g.drain steps f = .ok (order, reached)) (empty : reached.ready = [])
    (le : steps ≤ more) : g.drain more f = .ok (order, reached) := by
  induction steps generalizing more f order with
  | zero =>
    cases drained
    cases more with
    | zero => rfl
    | succ more => simp only [drain, empty]
  | succ steps ih =>
    obtain ⟨further, rfl⟩ : ∃ further, more = further + 1 := ⟨more - 1, by omega⟩
    unfold drain at drained ⊢
    split at drained
    · exact drained
    · rename_i next rest ready
      simp only [bind_eq_ok] at drained ⊢
      obtain ⟨released, lowered, ⟨later, last⟩, drained', same⟩ := drained
      cases same
      exact ⟨released, lowered, _, ih drained' (Nat.le_of_succ_le_succ le), rfl⟩

/-- In every graph that building and lowering lead to, the schedule exists. It names every stage
once, behind those that write its inputs, and it is the first such order if orders are compared
stage by stage. The bound on the steps cuts nothing off: after as many steps as there are stages
none is ready any more. -/
theorem Reachable.schedule_isLeast (reachable : g.Reachable) :
    ∃ order, g.schedule = .ok order ∧ g.Ordered order ∧
      (∀ other, g.Ordered other →
        order = other ∨ List.Lex (fun first second => first.index < second.index) order other) ∧
      ∀ start, g.initialFrontier = .ok start → ∃ reached, reached.ready = [] ∧
        ∀ steps, g.stages.size ≤ steps → g.drain steps start = .ok (order, reached) := by
  have wired := reachable.wellFormed.wired
  obtain ⟨order, scheduled, ordered⟩ := wired.exists_schedule
  obtain ⟨start, started, tracks⟩ := initialFrontier_ok wired
  have released : g.Released [] := ⟨.nil, by simp, by simp⟩
  obtain ⟨drainedOrder, reached, drained, tracked, -, -⟩ :=
    drain_ok wired g.stages.size tracks released
  obtain rfl : drainedOrder = order := by
    simp only [schedule, started, drained, bind, Except.bind] at scheduled
    split at scheduled
    · exact Except.ok.inj scheduled
    · cases stopped : g.stuck reached drainedOrder.length <;>
        simp [stopped, throw, throwThe, MonadExceptOf.throw] at scheduled
  have empty : reached.ready = [] := by
    refine List.eq_nil_iff_forall_not_mem.mpr fun id member => ?_
    obtain ⟨known, -, fresh⟩ := (tracked.ready id).mp member
    exact fresh (by simpa using (ordered.mem_iff id).mpr known)
  refine ⟨drainedOrder, scheduled, ordered, fun other ordered' => ?_, fun start' started' => ?_⟩
  · refine (earliest_of_drain wired tracks released drained).lex
      (ordered.length_eq.trans ordered'.length_eq.symm) fun earlier id later split => ?_
    refine ⟨(ordered'.mem_iff id).mp (by simp [split]), ?_, ?_⟩
    · exact (ordered'.behind earlier id later split).mono (by simp)
    · simpa using (ordered'.apart split).1
  · rw [started] at started'
    cases started'
    exact ⟨reached, empty, fun steps enough => drain_of_le drained empty enough⟩

/-- A row that is copied twice and halved once, the second copy wired before the first. -/
def lastFirst : Graph where
  name := "row"
  tensors := #[
    { Tensor.fresh "given" .fp16 { w := some 8 } .input with consumers := [⟨1⟩, ⟨2⟩] },
    { Tensor.fresh "first" .fp16 { w := some 8 } .intermediate with
      producer := some ⟨2⟩, consumers := [⟨0⟩] },
    { Tensor.fresh "half" .fp16 { w := some 8 } .intermediate with producer := some ⟨1⟩ },
    { Tensor.fresh "second" .fp16 { w := some 8 } .intermediate with producer := some ⟨0⟩ }]
  stages := #[
    ⟨"tail", none, [⟨1⟩], [⟨3⟩], .copy {} none⟩,
    ⟨"side", none, [⟨0⟩], [⟨2⟩], .power ⟨0.5, 0.0, 1.0⟩⟩,
    ⟨"head", none, [⟨0⟩], [⟨1⟩], .copy {} none⟩]

theorem reachable_lastFirst : lastFirst.Reachable := by
  let given := ((empty "row").addTensor "given" .fp16 { w := some 8 } .input).2
  let first := (given.addTensor "first" .fp16 { w := some 8 } .intermediate).2
  let half := (first.addTensor "half" .fp16 { w := some 8 } .intermediate).2
  let second := (half.addTensor "second" .fp16 { w := some 8 } .intermediate).2
  have tensors : second.Reachable :=
    ((((Reachable.empty "row").addTensor _ _ _ (by decide)).addTensor _ _ _ (by decide)).addTensor
      _ _ _ (by decide)).addTensor _ _ _ (by decide)
  let tail := second.connect ⟨"tail", none, [⟨1⟩], [⟨3⟩], .copy {} none⟩
  let side := tail.connect ⟨"side", none, [⟨0⟩], [⟨2⟩], .power ⟨0.5, 0.0, 1.0⟩⟩
  have tails : second.addCopy "tail" none [⟨1⟩] [⟨3⟩] {} = .ok (⟨0⟩, tail) := by
    decide +kernel
  have sides : tail.addPower "side" none [⟨0⟩] [⟨2⟩] ⟨0.5, 0.0, 1.0⟩ = .ok (⟨1⟩, side) := by
    decide +kernel
  have heads : side.addCopy "head" none [⟨0⟩] [⟨1⟩] {} = .ok (⟨2⟩, lastFirst) := by
    decide +kernel
  exact ((tensors.addCopy tails).addPower sides).addCopy heads

/-- The stage with the lowest handle has to wait for the one with the highest. -/
theorem schedule_lastFirst :
    lastFirst.Reachable ∧ lastFirst.schedule = .ok [⟨1⟩, ⟨2⟩, ⟨0⟩] ∧
      ∀ other, lastFirst.Ordered other → [⟨1⟩, ⟨2⟩, ⟨0⟩] = other ∨
        List.Lex (fun first second : StageId => first.index < second.index) [⟨1⟩, ⟨2⟩, ⟨0⟩]
          other := by
  have scheduled : lastFirst.schedule = .ok [⟨1⟩, ⟨2⟩, ⟨0⟩] := by
    decide +kernel
  obtain ⟨order, scheduled', -, least, -⟩ := reachable_lastFirst.schedule_isLeast
  obtain rfl := Except.ok.inj (scheduled'.symm.trans scheduled)
  exact ⟨reachable_lastFirst, scheduled, least⟩

end TensorLowering.Graph
