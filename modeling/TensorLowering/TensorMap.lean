import TensorLowering.Handle

namespace TensorLowering

/-- Puts an entry where its handle belongs, replacing the entry that the handle had. -/
def insertEntry {α : Type} (id : TensorId) (value : α) :
    List (TensorId × α) → List (TensorId × α)
  | [] => [(id, value)]
  | entry :: rest =>
    if id.index < entry.1.index then (id, value) :: entry :: rest
    else if id = entry.1 then (id, value) :: rest
    else entry :: insertEntry id value rest

theorem mem_insertEntry {α : Type} {id : TensorId} {value : α} {entry : TensorId × α}
    {entries : List (TensorId × α)} (member : entry ∈ insertEntry id value entries) :
    entry = (id, value) ∨ entry ∈ entries := by
  induction entries with
  | nil => simpa [insertEntry] using member
  | cons first rest ih =>
    unfold insertEntry at member
    split at member
    · simpa using member
    · split at member
      · rcases List.mem_cons.1 member with new | old
        · exact .inl new
        · exact .inr (List.mem_cons_of_mem _ old)
      · rcases List.mem_cons.1 member with here | later
        · exact .inr (here ▸ List.mem_cons_self ..)
        · exact (ih later).imp_right (List.mem_cons_of_mem _)

theorem insertEntry_sorted {α : Type} (id : TensorId) (value : α)
    {entries : List (TensorId × α)} (sorted : entries.Pairwise (·.1.index < ·.1.index)) :
    (insertEntry id value entries).Pairwise (·.1.index < ·.1.index) := by
  induction entries with
  | nil => simp [insertEntry]
  | cons first rest ih =>
    obtain ⟨before, tail⟩ := List.pairwise_cons.1 sorted
    unfold insertEntry
    split
    · rename_i less
      refine List.pairwise_cons.2 ⟨fun entry member => ?_, sorted⟩
      rcases List.mem_cons.1 member with rfl | later
      · exact less
      · exact Nat.lt_trans less (before entry later)
    · split
      · rename_i same
        exact List.pairwise_cons.2 ⟨fun entry member => by simpa [same] using before entry member, tail⟩
      · rename_i notLess notSame
        have greater : first.1.index < id.index := by
          have : id.index ≠ first.1.index := fun same => notSame (by cases id; simp_all)
          omega
        refine List.pairwise_cons.2 ⟨fun entry member => ?_, ih tail⟩
        rcases mem_insertEntry member with rfl | later
        · exact greater
        · exact before entry later

/-- One value for each of some tensors, in the order of their handles. -/
structure TensorMap (α : Type) where
  toList : List (TensorId × α)
  sorted : toList.Pairwise (·.1.index < ·.1.index)
  deriving DecidableEq

namespace TensorMap

variable {α : Type}

def empty : TensorMap α := ⟨[], .nil⟩

instance : Inhabited (TensorMap α) := ⟨empty⟩

def insert (m : TensorMap α) (id : TensorId) (value : α) : TensorMap α :=
  ⟨insertEntry id value m.toList, insertEntry_sorted id value m.sorted⟩

/-- Enters the pairs from left to right, so that the last entry for a tensor stays. -/
def ofList (entries : List (TensorId × α)) : TensorMap α :=
  entries.foldl (fun m entry => m.insert entry.1 entry.2) empty

def get? (m : TensorMap α) (id : TensorId) : Option α :=
  (m.toList.find? fun entry => entry.1 = id).map (·.2)

def contains (m : TensorMap α) (id : TensorId) : Bool := (m.get? id).isSome

def size (m : TensorMap α) : Nat := m.toList.length

@[simp] theorem get?_empty (id : TensorId) : (empty : TensorMap α).get? id = none := rfl

theorem get?_insert (m : TensorMap α) (id other : TensorId) (value : α) :
    (m.insert id value).get? other = if other = id then some value else m.get? other := by
  obtain ⟨entries, sorted⟩ := m
  simp only [insert, get?]
  induction entries with
  | nil => by_cases same : other = id <;> simp [insertEntry, same, eq_comm]
  | cons first rest ih =>
    have tail := (List.pairwise_cons.1 sorted).2
    unfold insertEntry
    by_cases same : other = id
    · subst same
      split
      · simp
      · split
        · simp
        · rename_i notSame
          simp [Ne.symm notSame, ih tail]
    · split
      · simp [List.find?_cons, Ne.symm same]
      · split
        · rename_i here
          simp [Ne.symm same, ← here]
        · by_cases found : first.1 = other
          · simp [found]
          · have := ih tail
            simp only [same, if_false] at this ⊢
            simp [found, this]

theorem mem_toList {m : TensorMap α} {id : TensorId} {value : α} :
    (id, value) ∈ m.toList ↔ m.get? id = some value := by
  obtain ⟨entries, sorted⟩ := m
  simp only [get?]
  induction entries with
  | nil => simp
  | cons first rest ih =>
    obtain ⟨before, tail⟩ := List.pairwise_cons.mp sorted
    rw [List.mem_cons, List.find?_cons]
    by_cases here : first.1 = id
    · subst here
      simp only [decide_true, Option.map_some, Option.some.injEq]
      constructor
      · rintro (same | later)
        · exact congrArg Prod.snd same.symm
        · exact absurd (before _ later) (Nat.lt_irrefl _)
      · rintro rfl
        exact .inl rfl
    · simp only [here, decide_false, ← ih tail]
      constructor
      · rintro (rfl | later)
        · exact absurd rfl here
        · exact later
      · exact .inr

/-- The answer of a stage is about its input and its output. -/
theorem forall_mem_answer {inputId outputId : TensorId}
    (apart : inputId ≠ outputId) {input output : α} {holds : TensorId × α → Prop} :
    (∀ entry ∈ ((empty.insert inputId input).insert outputId output).toList, holds entry) ↔
      holds (inputId, input) ∧ holds (outputId, output) := by
  simp only [Prod.forall, mem_toList, get?_insert, get?_empty]
  constructor
  · intro all
    exact ⟨all inputId input (by simp [apart]), all outputId output (by simp)⟩
  · intro both id value found
    obtain ⟨first, second⟩ := both
    split at found
    · rename_i here
      cases found
      exact here ▸ second
    · split at found
      · rename_i here
        cases found
        exact here ▸ first
      · cases found

end TensorMap

end TensorLowering
