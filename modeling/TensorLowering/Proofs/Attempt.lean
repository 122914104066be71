import TensorLowering.Attempt

namespace TensorLowering

theorem bind_eq_ok {ε α β : Type} {first : Except ε α} {next : α → Except ε β} {result : β} :
    (first >>= next) = .ok result ↔ ∃ middle, first = .ok middle ∧ next middle = .ok result := by
  cases first <;> simp [bind, Except.bind]

theorem bind_eq_error {ε α β : Type} {first : Except ε α} {next : α → Except ε β} {error : ε} :
    (first >>= next) = .error error ↔
      first = .error error ∨ ∃ middle, first = .ok middle ∧ next middle = .error error := by
  cases first <;> simp [bind, Except.bind]

theorem forM_eq_ok_iff {ε α : Type} {check : α → Except ε Unit} {items : List α} :
    items.forM check = .ok () ↔ ∀ item ∈ items, check item = .ok () := by
  induction items with
  | nil => simp [pure, Except.pure]
  | cons item rest ih =>
    rw [List.forM, bind_eq_ok, List.forall_mem_cons, ← ih]
    exact ⟨fun ⟨_, here, later⟩ => ⟨here, later⟩, fun ⟨here, later⟩ => ⟨(), here, later⟩⟩

/-- A check of many items fails with the first item that fails it. -/
theorem forM_eq_error_iff {ε α : Type} {check : α → Except ε Unit} {items : List α} {error : ε} :
    items.forM check = .error error ↔ ∃ before item after, items = before ++ item :: after ∧
      (∀ earlier ∈ before, check earlier = .ok ()) ∧ check item = .error error := by
  induction items with
  | nil => simp [pure, Except.pure]
  | cons item rest ih =>
    rw [List.forM, bind_eq_error, ih]
    constructor
    · rintro (here | ⟨_, passed, before, later, after, rfl, earlier, failed⟩)
      · exact ⟨[], item, rest, rfl, by simp, here⟩
      · exact ⟨item :: before, later, after, rfl, List.forall_mem_cons.mpr ⟨passed, earlier⟩, failed⟩
    · rintro ⟨before, later, after, split, earlier, failed⟩
      cases before with
      | nil =>
        obtain ⟨rfl, rfl⟩ := List.cons.inj split
        exact .inl failed
      | cons first before =>
        obtain ⟨rfl, rfl⟩ := List.cons.inj split
        obtain ⟨passed, earlier⟩ := List.forall_mem_cons.mp earlier
        exact .inr ⟨(), passed, before, later, after, rfl, earlier, failed⟩

theorem forM_eq_error {ε α : Type} {check : α → Except ε Unit} {items : List α} {error : ε}
    (failed : items.forM check = .error error) : ∃ item ∈ items, check item = .error error := by
  obtain ⟨before, item, after, rfl, -, found⟩ := forM_eq_error_iff.mp failed
  exact ⟨item, by simp, found⟩

theorem mapM_eq_ok {ε α β : Type} {question : α → Except ε β} {answer : α → β} {items : List α}
    (each : ∀ item ∈ items, question item = .ok (answer item)) :
    items.mapM question = .ok (items.map answer) := by
  induction items with
  | nil => rfl
  | cons item rest ih =>
    obtain ⟨here, later⟩ := List.forall_mem_cons.mp each
    rw [List.mapM_cons, here, ih later]
    rfl

theorem foldlM_eq_self {ε α σ : Type} {step : σ → α → Except ε σ} {state : σ} {items : List α}
    (each : ∀ item ∈ items, step state item = .ok state) :
    items.foldlM step state = .ok state := by
  induction items with
  | nil => rfl
  | cons item rest ih =>
    obtain ⟨here, later⟩ := List.forall_mem_cons.mp each
    rw [List.foldlM_cons, here]
    exact ih later

theorem foldlM_congr {ε α σ : Type} {step step' : σ → α → Except ε σ} {state : σ} {items : List α}
    (same : ∀ item ∈ items, ∀ now, step now item = step' now item) :
    items.foldlM step state = items.foldlM step' state := by
  induction items generalizing state with
  | nil => rfl
  | cons item rest ih =>
    obtain ⟨here, later⟩ := List.forall_mem_cons.mp same
    rw [List.foldlM_cons, List.foldlM_cons, here]
    exact congrArg (step' state item >>= ·) (funext fun _ => ih later)

/-- What a question comes to: `done` about an answer, `failed` about an error. -/
def Yields {ε α : Type} (outcome : Except ε α) (done : α → Prop) (failed : ε → Prop) : Prop :=
  match outcome with
  | .ok result => done result
  | .error error => failed error

theorem Yields.of_ok {ε α : Type} {outcome : Except ε α} {done : α → Prop} {failed : ε → Prop}
    {result : α} (yields : Yields outcome done failed) (answered : outcome = .ok result) :
    done result := by
  simpa only [Yields, answered] using yields

theorem Yields.of_error {ε α : Type} {outcome : Except ε α} {done : α → Prop} {failed : ε → Prop}
    {error : ε} (yields : Yields outcome done failed) (refused : outcome = .error error) :
    failed error := by
  simpa only [Yields, refused] using yields

theorem Yields.mono {ε α : Type} {outcome : Except ε α} {done done' : α → Prop}
    {failed failed' : ε → Prop} (yields : Yields outcome done failed)
    (success : ∀ result, done result → done' result)
    (failure : ∀ error, failed error → failed' error) : Yields outcome done' failed' := by
  cases outcome with
  | ok result => exact success result yields
  | error error => exact failure error yields

theorem Yields.bind {ε α β : Type} {first : Except ε α} {next : α → Except ε β} {done : α → Prop}
    {done' : β → Prop} {failed : ε → Prop} (yields : Yields first done failed)
    (later : ∀ middle, done middle → Yields (next middle) done' failed) :
    Yields (first >>= next) done' failed := by
  cases first with
  | ok middle => exact later middle yields
  | error error => exact yields

/-- A fold that may fail is followed item by item: `inv` speaks of the items already treated. -/
theorem Yields.foldlM {ε α σ : Type} (inv : List α → σ → Prop) {step : σ → α → Except ε σ}
    {state : σ} {items : List α} {failed : ε → Prop} (start : inv [] state)
    (each : ∀ before item rest now, items = before ++ item :: rest → inv before now →
      Yields (step now item) (inv (before ++ [item])) failed) :
    Yields (items.foldlM step state) (inv items) failed := by
  have go : ∀ rest before now, items = before ++ rest → inv before now →
      Yields (rest.foldlM step now) (inv items) failed := by
    intro rest
    induction rest with
    | nil =>
      intro before now split reached
      rw [List.append_nil] at split
      exact split ▸ reached
    | cons item rest ih =>
      intro before now split reached
      rw [List.foldlM_cons]
      exact (each before item rest now split reached).bind fun after treated =>
        ih (before ++ [item]) after (by simp [split]) treated
  exact go items [] state rfl start

namespace Attempt

variable {σ τ α β : Type}

/-- What work from a state leads to: `done` about a result and the state it leaves, `failed` about
an error and the state it was met in. -/
def Ensures (work : Attempt σ α) (state : σ) (done : α → σ → Prop)
    (failed : LoweringError → σ → Prop) : Prop :=
  match work state with
  | .ok result after => done result after
  | .error error after => failed error after

/-- What work from a state succeeds with, and the state it leaves. -/
def result? (work : Attempt σ α) (state : σ) : Option (α × σ) :=
  match work state with
  | .ok result after => some (result, after)
  | .error _ _ => none

theorem result?_eq_some_iff {work : Attempt σ α} {state : σ} {found : α × σ} :
    result? work state = some found ↔ work state = .ok found.1 found.2 := by
  unfold result?
  cases work state <;> simp [Prod.ext_iff]

section rules

variable {state : σ} {done : β → σ → Prop} {failed : LoweringError → σ → Prop}

@[simp] theorem ensures_pure {result : β} :
    Ensures (pure result) state done failed ↔ done result state := Iff.rfl

@[simp] theorem ensures_throw {error : LoweringError} :
    Ensures (throw error) state done failed ↔ failed error state := Iff.rfl

@[simp] theorem ensures_bind {first : Attempt σ α} {next : α → Attempt σ β} :
    Ensures (first >>= next) state done failed ↔
      Ensures first state (fun middle after => Ensures (next middle) after done failed) failed := by
  simp only [Ensures, bind, EStateM.bind]
  cases first state <;> rfl

@[simp] theorem ensures_get {done : σ → σ → Prop} :
    Ensures get state done failed ↔ done state state := Iff.rfl

@[simp] theorem ensures_modify {change : σ → σ} {done : PUnit → σ → Prop} :
    Ensures (modify change) state done failed ↔ done ⟨⟩ (change state) := Iff.rfl

@[simp] theorem ensures_ask {question : σ → Except LoweringError β} :
    Ensures (ask question) state done failed ↔
      (∀ answer, question state = .ok answer → done answer state) ∧
        ∀ error, question state = .error error → failed error state := by
  simp only [Ensures, ask]
  cases question state <;> simp

/-- A question whose answer is known. -/
theorem Ensures.ask_bind {question : σ → Except LoweringError α} {answer : α}
    {next : α → Attempt σ β} (answered : question state = .ok answer)
    (rest : Ensures (next answer) state done failed) :
    Ensures (ask question >>= next) state done failed := by
  simpa [answered] using rest

theorem Ensures.ask_fail {question : σ → Except LoweringError α} {error : LoweringError}
    {next : α → Attempt σ β} (asked : question state = .error error)
    (refused : failed error state) : Ensures (ask question >>= next) state done failed := by
  simpa [asked] using refused

@[simp] theorem ensures_within {part : τ → σ} {replace : τ → σ → τ} {work : Attempt σ β}
    {whole : τ} {done : β → τ → Prop} {failed : LoweringError → τ → Prop} :
    Ensures (work.within part replace) whole done failed ↔
      Ensures work (part whole) (fun result after => done result (replace whole after))
        (fun error after => failed error (replace whole after)) := by
  simp only [Ensures, Attempt.within]
  cases work (part whole) <;> rfl

@[simp] theorem ensures_ite {choice : Prop} [Decidable choice] {yes no : Attempt σ β} :
    Ensures (if choice then yes else no) state done failed ↔
      (choice → Ensures yes state done failed) ∧ (¬choice → Ensures no state done failed) := by
  by_cases holds : choice <;> simp [holds]

theorem Ensures.mono {work : Attempt σ β} {done' : β → σ → Prop}
    {failed' : LoweringError → σ → Prop} (ensured : work.Ensures state done failed)
    (success : ∀ result after, done result after → done' result after)
    (failure : ∀ error after, failed error after → failed' error after) :
    work.Ensures state done' failed' := by
  unfold Ensures at ensured ⊢
  split at ensured
  · exact success _ _ ensured
  · exact failure _ _ ensured

theorem Ensures.of_ok {work : Attempt σ β} {result : β} {after : σ}
    (ensured : work.Ensures state done failed) (run : work state = .ok result after) :
    done result after := by
  simpa only [Ensures, run] using ensured

theorem Ensures.of_error {work : Attempt σ β} {error : LoweringError} {after : σ}
    (ensured : work.Ensures state done failed) (run : work state = .error error after) :
    failed error after := by
  simpa only [Ensures, run] using ensured

theorem Ensures.and {work : Attempt σ β} {done' : β → σ → Prop}
    {failed' : LoweringError → σ → Prop} (first : work.Ensures state done failed)
    (second : work.Ensures state done' failed') :
    work.Ensures state (fun result after => done result after ∧ done' result after)
      (fun error after => failed error after ∧ failed' error after) := by
  unfold Ensures at *
  cases run : work state <;> simp_all only [and_self]

end rules

/-- A sweep is followed item by item: `inv` speaks of the items already treated and of their
count. -/
theorem Ensures.sweep (inv : List α → Nat → σ → Prop) {treat : α → Attempt σ Nat}
    {items : List α} {state : σ} {failed : LoweringError → σ → Prop} (start : inv [] 0 state)
    (each : ∀ before item rest count now, items = before ++ item :: rest → inv before count now →
      (treat item).Ensures now (fun here => inv (before ++ [item]) (count + here)) failed) :
    (sweep treat items).Ensures state (inv items) failed := by
  -- The induction is on the items still to come, so the treated ones have to be free.
  have go : ∀ rest before count now, items = before ++ rest → inv before count now →
      (TensorLowering.sweep treat rest).Ensures now (fun here => inv items (count + here))
        failed := by
    intro rest
    induction rest with
    | nil =>
      rintro before count now split reached
      simpa [TensorLowering.sweep, split] using reached
    | cons item rest ih =>
      intro before count now split reached
      simp only [TensorLowering.sweep, ensures_bind, ensures_pure]
      refine (each before item rest count now split reached).mono ?_ fun _ _ => id
      intro here after treated
      refine (ih (before ++ [item]) (count + here) after (by simp [split]) treated).mono ?_
        fun _ _ => id
      intro later final swept
      simpa [Nat.add_assoc] using swept
  simpa using go items [] 0 state rfl start

theorem sweep_singleton (treat : α → Attempt σ Nat) (item : α) :
    sweep treat [item] = treat item := by
  funext state
  simp only [sweep, bind, EStateM.bind, pure, EStateM.pure, Nat.add_zero]
  cases treat item state <;> rfl

/-- Work that keeps a property of the state, whether it succeeds or fails. -/
def Keeps (kept : σ → Prop) (work : Attempt σ α) : Prop :=
  ∀ state, kept state → work.Ensures state (fun _ => kept) (fun _ => kept)

/-- A sweep keeps what each of its steps keeps, and fails as they do. -/
theorem Ensures.sweep_of_each {kept : σ → Prop} {failed : LoweringError → σ → Prop}
    {treat : α → Attempt σ Nat} {items : List α} {state : σ} (before : kept state)
    (each : ∀ item ∈ items, ∀ now, kept now → (treat item).Ensures now (fun _ => kept) failed) :
    (TensorLowering.sweep treat items).Ensures state (fun _ => kept) failed := by
  refine Ensures.sweep (fun _ _ => kept) before ?_
  intro treated item rest _ now split here
  exact each item (by simp [split]) now here

/-- Items that each have a part of the state to themselves. What an item brings its part to is there
in the end, and the sweep counts nothing exactly when it leaves every part as it was. -/
theorem Ensures.sweep_apart {κ δ : Type} (view : σ → κ → δ) (own : α → κ) (goal : α → δ → Prop)
    (kept : σ → Prop) {failed : LoweringError → σ → Prop} {treat : α → Attempt σ Nat}
    {items : List α} {state : σ} (apart : (items.map own).Nodup) (before : kept state)
    (each : ∀ item ∈ items, ∀ now, kept now → (treat item).Ensures now
      (fun here after => kept after ∧ (∀ key, key ≠ own item → view after key = view now key) ∧
        goal item (view after (own item)) ∧
        (here = 0 ↔ view after (own item) = view now (own item))) failed) :
    (TensorLowering.sweep treat items).Ensures state
      (fun count after => kept after ∧ (∀ item ∈ items, goal item (view after (own item))) ∧
        (count = 0 ↔ view after = view state)) failed := by
  refine (Ensures.sweep (fun treated count now => kept now ∧
    (∀ key, key ∉ treated.map own → view now key = view state key) ∧
      (∀ item ∈ treated, goal item (view now (own item))) ∧ (count = 0 ↔ view now = view state))
        ⟨before, by simp, by simp, by simp⟩ ?_).mono
          (fun _ _ reached => ⟨reached.1, reached.2.2⟩) fun _ _ => id
  intro treated item rest count now split reached
  obtain ⟨held, waiting, brought, counted⟩ := reached
  refine (each item (by simp [split]) now held).mono ?_ fun _ _ => id
  intro here after ended
  obtain ⟨held', elsewhere, brought', counted'⟩ := ended
  have fresh : own item ∉ treated.map own := fun member => by
    rw [split, List.map_append, List.nodup_append] at apart
    exact apart.2.2 _ member _ (List.mem_map_of_mem (List.mem_cons_self ..)) rfl
  refine ⟨held', fun key absent => ?_, fun other member => ?_, ?_⟩
  · rw [List.map_append, List.mem_append, not_or] at absent
    rw [elsewhere key (by simpa using absent.2), waiting key absent.1]
  · rcases List.mem_append.mp member with old | last
    · rw [elsewhere _ fun same => fresh (same ▸ List.mem_map_of_mem old)]
      exact brought other old
    · exact List.mem_singleton.mp last ▸ brought'
  · rw [Nat.add_eq_zero_iff, counted, counted']
    constructor
    · intro both
      obtain ⟨same, same'⟩ := both
      funext key
      by_cases here : key = own item
      · rw [here, same', same]
      · rw [elsewhere key here, same]
    · intro same
      refine ⟨funext fun key => ?_, by rw [same, waiting _ fresh]⟩
      by_cases here : key = own item
      · rw [here, waiting _ fresh]
      · rw [← elsewhere key here, same]

theorem keeps_sweep {kept : σ → Prop} {treat : α → Attempt σ Nat} {items : List α}
    (each : ∀ item ∈ items, Keeps kept (treat item)) : Keeps kept (sweep treat items) :=
  fun _ before => Ensures.sweep_of_each before each

theorem Keeps.within {kept : σ → Prop} {part : τ → σ} {replace : τ → σ → τ}
    {work : Attempt σ α} (keeps : Keeps kept work)
    (part_replace : ∀ whole after, part (replace whole after) = after) :
    Keeps (fun whole => kept (part whole)) (work.within part replace) := by
  intro whole before
  simpa [part_replace] using keeps (part whole) before

theorem ensures_iff_state {kept : σ → Prop} {work : Attempt σ α} {now : σ} :
    work.Ensures now (fun _ => kept) (fun _ => kept) ↔ kept (Attempt.state work now) := by
  unfold Ensures Attempt.state
  cases work now <;> rfl

theorem state_bind (first : Attempt σ α) (next : α → Attempt σ β) (now : σ) :
    Attempt.state (first >>= next) now =
      match first now with
      | .ok middle after => Attempt.state (next middle) after
      | .error _ after => after := by
  simp only [Attempt.state, bind, EStateM.bind]
  cases first now <;> rfl

theorem state_pure (result : α) (now : σ) :
    Attempt.state (pure result : Attempt σ α) now = now := rfl

theorem state_get_bind (next : σ → Attempt σ α) (now : σ) :
    Attempt.state (get >>= next) now = Attempt.state (next now) now := rfl

theorem keeps_iff_state {kept : σ → Prop} {work : Attempt σ α} :
    Keeps kept work ↔ ∀ now, kept now → kept (Attempt.state work now) :=
  forall₂_congr fun _ _ => ensures_iff_state

theorem keeps_pure {kept : σ → Prop} (result : α) : Keeps kept (pure result : Attempt σ α) :=
  fun _ before => before

theorem Keeps.bind {kept : σ → Prop} {first : Attempt σ α} {next : α → Attempt σ β}
    (keeps : Keeps kept first) (keeps' : ∀ middle, Keeps kept (next middle)) :
    Keeps kept (first >>= next) := by
  intro now before
  rw [ensures_bind]
  exact (keeps now before).mono (fun middle after here => keeps' middle after here) fun _ _ => id

theorem Keeps.and {kept kept' : σ → Prop} {work : Attempt σ α} (keeps : Keeps kept work)
    (keeps' : Keeps kept' work) : Keeps (fun now => kept now ∧ kept' now) work :=
  fun now before => (keeps now before.1).and (keeps' now before.2)

theorem keeps_ask {kept : σ → Prop} (question : σ → Except LoweringError α) :
    Keeps kept (ask question) := by
  intro now before
  simp [before]

/-- Work that begins alike and goes on alike comes out alike. -/
theorem bind_congr_of_ok {first first' : Attempt σ α} {next next' : α → Attempt σ β} {state : σ}
    (same : first state = first' state)
    (later : ∀ middle after, first state = .ok middle after →
      next middle after = next' middle after) :
    (first >>= next) state = (first' >>= next') state := by
  simp only [bind, EStateM.bind, ← same]
  cases outcome : first state with
  | ok middle after => exact later middle after outcome
  | error error after => rfl

theorem ask_bind_congr {question : σ → Except LoweringError α} {next next' : α → Attempt σ β}
    {state : σ} (later : ∀ answer, next answer state = next' answer state) :
    (ask question >>= next) state = (ask question >>= next') state := by
  simp only [bind, EStateM.bind, ask]
  cases question state with
  | ok answer => exact later answer
  | error error => rfl

theorem sweep_congr {kept : σ → Prop} {treat treat' : α → Attempt σ Nat} {items : List α}
    {state : σ} (before : kept state) (keeps : ∀ item ∈ items, Keeps kept (treat item))
    (same : ∀ item ∈ items, ∀ now, kept now → treat item now = treat' item now) :
    sweep treat items state = sweep treat' items state := by
  induction items generalizing state with
  | nil => rfl
  | cons item rest ih =>
    obtain ⟨keepsHere, keepsLater⟩ := List.forall_mem_cons.mp keeps
    obtain ⟨sameHere, sameLater⟩ := List.forall_mem_cons.mp same
    refine bind_congr_of_ok (sameHere state before) fun here after treated => ?_
    have now : kept after := (keepsHere state before).of_ok treated
    exact bind_congr_of_ok (ih now keepsLater sameLater) fun _ _ _ => rfl

end Attempt

end TensorLowering
