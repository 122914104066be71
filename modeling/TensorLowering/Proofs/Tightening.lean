import TensorLowering.Proofs.Requirement

/-!
Demands are joined. Whether some demands can be met together, and what requirement meets them, has
nothing to do with the order in which they are entered or with how often one of them is.
-/

namespace TensorLowering

namespace Requirement

variable {r s after merged reached : Requirement} {demands again : List (Nat × Slot)}
  {position : Nat} {slot : Slot} {conflict : StrideConflict} {changed : Bool}

/-- What is asked of a position, by the requirement or by one of the demands. -/
def asked (r : Requirement) (demands : List (Nat × Slot)) (position : Nat) : Set Slot :=
  {slot | slot = r.get position ∨ (position, slot) ∈ demands}

/-- What two requirements are merged to, unless they are in conflict. -/
def join? (r s : Requirement) : Option Requirement :=
  match r.merge s with
  | (merged, .ok _) => some merged
  | (_, .error _) => none

/-! ### Demands, one after another -/

theorem tighten_of_le_position (past : maxAxes ≤ position) :
    r.tighten position slot = .ok (r, false) := by
  have free : r.get position = .any := get_of_le past
  have unmoved : r.set position slot = r := by
    ext other
    simp [get_set, Nat.not_lt.mpr past]
  unfold tighten
  split
  · rfl
  · rw [unmoved, decide_eq_false (Nat.not_lt.mpr past)]
  · exact absurd free (by assumption)

/-- Demands past the last position do not matter. -/
theorem tightenAll_filter (r : Requirement) (demands : List (Nat × Slot)) :
    r.tightenAll (demands.filter fun demand => demand.1 < maxAxes) = r.tightenAll demands := by
  induction demands generalizing r with
  | nil => rfl
  | cons demand rest ih =>
    obtain ⟨position, slot⟩ := demand
    by_cases bound : position < maxAxes
    · rw [List.filter_cons_of_pos (by simpa using bound)]
      simp only [tightenAll, ih]
    · rw [List.filter_cons_of_neg (by simpa using bound), ih]
      simp only [tightenAll, tighten_of_le_position (Nat.le_of_not_lt bound)]
      cases r.tightenAll rest with
      | mk reached outcome => cases outcome <;> simp [Except.map]

/-- A step says whether it changed the requirement, wherever the demand is. -/
theorem changed_iff_of_tighten (tightened : r.tighten position slot = .ok (after, changed)) :
    changed = true ↔ after ≠ r := by
  by_cases bound : position < maxAxes
  · exact (tighten_ok tightened bound).2
  · rw [tighten_of_le_position (Nat.le_of_not_lt bound)] at tightened
    cases tightened
    simp

/-- The requirements that meet the demands as well as what was asked before. -/
theorem tightenAll_cases (r : Requirement) (demands : List (Nat × Slot)) :
    match r.tightenAll demands with
    | (after, .ok changed) =>
      IsLeast {upper | r ≤ upper ∧ ∀ position slot,
        position < maxAxes ∧ (position, slot) ∈ demands → slot ≤ upper.get position} after ∧
        (changed = true ↔ after ≠ r)
    | (_, .error _) => ¬∃ upper, r ≤ upper ∧ ∀ position slot,
        position < maxAxes ∧ (position, slot) ∈ demands → slot ≤ upper.get position := by
  have spec := tightenAll_spec r (demands.filter fun demand => demand.1 < maxAxes) (by simp)
  have same (upper : Requirement) :
      (∀ demand ∈ demands.filter fun demand => demand.1 < maxAxes,
        demand.2 ≤ upper.get demand.1) ↔
      ∀ position slot, position < maxAxes ∧ (position, slot) ∈ demands →
        slot ≤ upper.get position := by
    simp only [List.mem_filter, decide_eq_true_eq, Prod.forall]
    exact forall₂_congr fun position slot => by rw [and_comm]
  simp only [tightenAll_filter, same] at spec
  exact spec

theorem exists_tightenAll_ok_iff :
    (∃ after changed, r.tightenAll demands = (after, .ok changed)) ↔
      ∀ position < maxAxes, ¬Slot.Clash (r.asked demands position) := by
  have spec := tightenAll_cases r demands
  have bounded := exists_upper_iff (r := r)
    (fun position slot => position < maxAxes ∧ (position, slot) ∈ demands) fun found => found.1
  have agree : (∀ position, ¬Slot.Clash {slot | slot = r.get position ∨
      position < maxAxes ∧ (position, slot) ∈ demands}) ↔
        ∀ position < maxAxes, ¬Slot.Clash (r.asked demands position) := by
    refine forall_congr' fun position => ?_
    by_cases inside : position < maxAxes
    · simp [inside, asked]
    · simp [inside, Slot.Clash]
  rw [← agree, ← bounded]
  cases outcome : r.tightenAll demands with
  | mk reached result =>
    rw [outcome] at spec
    cases result with
    | ok changed => exact ⟨fun _ => ⟨reached, spec.1.1⟩, fun _ => ⟨reached, changed, rfl⟩⟩
    | error conflict =>
      refine ⟨fun succeeded => ?_, fun met => absurd met spec⟩
      obtain ⟨_, _, succeeded⟩ := succeeded
      cases succeeded

/-- Where something is asked of a position, the result asks for that. -/
theorem get_tightenAll_eq_iff (tightened : r.tightenAll demands = (after, .ok changed))
    (inside : position < maxAxes) (asks : slot ≠ .any) :
    after.get position = slot ↔ slot ∈ r.asked demands position := by
  have spec := tightenAll_cases r demands
  rw [tightened] at spec
  obtain ⟨member, above⟩ := isGreatest_get _ spec.1 position
  simp only [inside, true_and] at member above
  constructor
  · intro same
    exact same ▸ member
  · intro found
    exact Slot.eq_of_le (above found) asks

theorem tightenAll_congr (tightened : r.tightenAll demands = (after, .ok changed))
    (same : ∀ demand, demand ∈ again ↔ demand ∈ demands) :
    r.tightenAll again = (after, .ok changed) := by
  have succeeds : ∃ after' changed', r.tightenAll again = (after', .ok changed') := by
    have agree := exists_tightenAll_ok_iff.mp ⟨after, changed, tightened⟩
    refine exists_tightenAll_ok_iff.mpr fun position inside => ?_
    simpa only [asked, same] using agree position inside
  obtain ⟨after', changed', tightened'⟩ := succeeds
  have spec := tightenAll_cases r demands
  have spec' := tightenAll_cases r again
  rw [tightened] at spec
  rw [tightened'] at spec'
  simp only [same] at spec'
  obtain rfl : after' = after := spec'.1.unique spec.1
  obtain rfl : changed' = changed := Bool.eq_iff_iff.mpr (spec'.2.trans spec.2.symm)
  exact tightened'

/-- What a conflict leaves is what the demands before it led to. -/
theorem exists_of_tightenAll_error (failed : r.tightenAll demands = (reached, .error conflict)) :
    ∃ before position slot rest changed, demands = before ++ (position, slot) :: rest ∧
      r.tightenAll before = (reached, .ok changed) ∧
        reached.tighten position slot = .error conflict := by
  induction demands generalizing r with
  | nil => cases failed
  | cons demand rest ih =>
    obtain ⟨position, slot⟩ := demand
    simp only [tightenAll] at failed
    cases tightened : r.tighten position slot with
    | error conflict' =>
      simp only [tightened, Prod.mk.injEq, Except.error.injEq] at failed
      obtain ⟨rfl, rfl⟩ := failed
      exact ⟨[], position, slot, rest, false, rfl, rfl, tightened⟩
    | ok outcome =>
      obtain ⟨middle, changed⟩ := outcome
      simp only [tightened] at failed
      cases later : middle.tightenAll rest with
      | mk reached' outcome' =>
        cases outcome' with
        | ok changed' => simp [later, Except.map] at failed
        | error conflict' =>
          simp only [later, Except.map, Prod.mk.injEq, Except.error.injEq] at failed
          obtain ⟨rfl, rfl⟩ := failed
          obtain ⟨before, place, demanded, after, changed', rfl, entered, refused⟩ := ih later
          refine ⟨(position, slot) :: before, place, demanded, after, changed || changed', rfl, ?_,
            refused⟩
          simp only [tightenAll, tightened, entered, Except.map]

/-! ### Two requirements -/

/-- What is merged already is met, and merging it again changes nothing. -/
theorem merge_merge (joined : r.merge s = (merged, .ok changed)) :
    merged.merge s = (merged, .ok false) := by
  have below : s ≤ merged := (merge_ok joined).1.1.2
  cases outcome : merged.merge s with
  | mk found result =>
    cases result with
    | ok changed' =>
      obtain ⟨least, moved⟩ := merge_ok outcome
      obtain rfl : found = merged := le_antisymm (least.2 ⟨le_rfl, below⟩) least.1.1
      have unmoved : changed' = false := by simpa using moved
      rw [unmoved]
    | error conflict => exact absurd below (merge_error outcome le_rfl)

/-- Two requirements are merged to their least upper bound, and are in conflict if they have none. -/
theorem join?_eq_some_iff : r.join? s = some merged ↔ IsLUB {r, s} merged := by
  have bounds : upperBounds {r, s} = {upper | r ≤ upper ∧ s ≤ upper} := by
    ext upper
    simp [upperBounds]
  unfold join? IsLUB
  rw [bounds]
  cases outcome : r.merge s with
  | mk found result =>
    cases result with
    | ok changed =>
      have least := (merge_ok outcome).1
      rw [Option.some.injEq]
      exact ⟨fun same => same ▸ least, fun least' => least.unique least'⟩
    | error conflict =>
      refine ⟨nofun, fun least => ?_⟩
      exact absurd least.1.2 (merge_error outcome least.1.1)

theorem join?_eq_none_iff : r.join? s = none ↔ ¬BddAbove {r, s} := by
  constructor
  · intro refused bounded
    obtain ⟨upper, above⟩ := bounded
    unfold join? at refused
    cases outcome : r.merge s with
    | mk found result =>
      cases result with
      | ok changed => simp [outcome] at refused
      | error conflict => exact merge_error outcome (above (by simp)) (above (by simp))
  · intro unbounded
    rw [Option.eq_none_iff_forall_ne_some]
    intro merged joined
    exact unbounded ⟨merged, (join?_eq_some_iff.mp joined).1⟩

theorem join?_comm (r s : Requirement) : r.join? s = s.join? r := by
  ext merged
  rw [join?_eq_some_iff, join?_eq_some_iff, Set.pair_comm]

theorem join?_self (r : Requirement) : r.join? r = some r := by
  simp [join?_eq_some_iff]

/-- Joining a third requirement to the join of two gives the least upper bound of all three. -/
theorem join?_bind_eq_some_iff {t : Requirement} :
    (r.join? s).bind (·.join? t) = some merged ↔ IsLUB {r, s, t} merged := by
  have bounds {both : Requirement} (joined : IsLUB {r, s} both) :
      upperBounds {both, t} = upperBounds {r, s, t} := by
    ext upper
    have covers : both ≤ upper ↔ r ≤ upper ∧ s ≤ upper := by
      simpa [upperBounds] using isLUB_le_iff joined
    simp [upperBounds, covers, and_assoc]
  rw [Option.bind_eq_some_iff]
  constructor
  · rintro ⟨both, joined, joined'⟩
    rw [join?_eq_some_iff] at joined joined'
    unfold IsLUB at joined' ⊢
    rwa [bounds joined] at joined'
  · intro least
    cases joined : r.join? s with
    | none =>
      refine absurd ⟨merged, ?_⟩ (join?_eq_none_iff.mp joined)
      exact upperBounds_mono_set (by simp [Set.insert_subset_iff]) least.1
    | some both =>
      refine ⟨both, rfl, join?_eq_some_iff.mpr ?_⟩
      unfold IsLUB at least ⊢
      rwa [bounds (join?_eq_some_iff.mp joined)]

theorem join?_assoc (r s t : Requirement) :
    (r.join? s).bind (·.join? t) = (s.join? t).bind (r.join? ·) := by
  have turned : (s.join? t).bind (r.join? ·) = (s.join? t).bind (·.join? r) := by
    simp only [join?_comm r]
  ext merged
  rw [turned, join?_bind_eq_some_iff, join?_bind_eq_some_iff, Set.insert_comm r s, Set.pair_comm r t]

theorem exists_merge_error_iff :
    (∃ reached conflict, r.merge s = (reached, .error conflict)) ↔ r.join? s = none := by
  unfold join?
  cases outcome : r.merge s with
  | mk found result => cases result <;> simp

/-- Demands are joined, whatever their number and their positions: they can be met together unless
two of them, or one of them and the requirement, ask for different strides at one position, and then
each position asks for what is asked of it. Their order and their repetitions do not matter, a step
tells whether it changed the requirement, and one that is refused does not change it. Merging two
requirements gives their join. -/
theorem tighten_join (r s t : Requirement) (demands : List (Nat × Slot)) :
    ((∃ after changed, r.tightenAll demands = (after, .ok changed)) ↔
      ∀ position < maxAxes, ¬Slot.Clash (r.asked demands position)) ∧
    (∀ after changed, r.tightenAll demands = (after, .ok changed) →
      (∀ position < maxAxes, ∀ slot, slot ≠ .any →
        (after.get position = slot ↔ slot ∈ r.asked demands position)) ∧
      ∀ again, (∀ demand, demand ∈ again ↔ demand ∈ demands) →
        r.tightenAll again = (after, .ok changed)) ∧
    (∀ position slot after changed, r.tighten position slot = .ok (after, changed) →
      (changed = true ↔ after ≠ r)) ∧
    (∀ reached conflict, r.tightenAll demands = (reached, .error conflict) →
      ∃ before position slot rest changed, demands = before ++ (position, slot) :: rest ∧
        r.tightenAll before = (reached, .ok changed) ∧
          reached.tighten position slot = .error conflict) ∧
    (∀ merged changed, r.merge s = (merged, .ok changed) →
      (∀ position, IsLUB {r.get position, s.get position} (merged.get position)) ∧
      (changed = true ↔ merged ≠ r) ∧ merged.merge s = (merged, .ok false)) ∧
    r.join? s = s.join? r ∧
    (r.join? s).bind (·.join? t) = (s.join? t).bind (r.join? ·) ∧
    r.join? r = some r ∧
    ((∃ reached conflict, r.merge s = (reached, .error conflict)) →
      ∃ reached conflict, s.merge r = (reached, .error conflict)) := by
  refine ⟨exists_tightenAll_ok_iff, fun after changed tightened => ⟨?_, ?_⟩, ?_, ?_, ?_,
    join?_comm r s, join?_assoc r s t, join?_self r, ?_⟩
  · exact fun position inside slot asks => get_tightenAll_eq_iff tightened inside asks
  · exact fun again same => tightenAll_congr tightened same
  · exact fun position slot after changed tightened => changed_iff_of_tighten tightened
  · exact fun reached conflict failed => exists_of_tightenAll_error failed
  · exact fun merged changed joined => ⟨fun position => (isGreatest_merge joined position).isLUB,
      (merge_ok joined).2, merge_merge joined⟩
  · rw [exists_merge_error_iff, exists_merge_error_iff, join?_comm]
    exact id

end Requirement

end TensorLowering
