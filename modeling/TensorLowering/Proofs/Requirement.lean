import Mathlib.Order.Bounds.Basic
import TensorLowering.Stride.Requirement

namespace TensorLowering

/-- What lies above the least solution above something is what lies above that and is a solution, if
solutions are closed upwards. -/
theorem le_iff_of_isLeast {α : Type} [Preorder α] {low least upper : α} {goal : α → Prop}
    (isLeast : IsLeast {upper | low ≤ upper ∧ goal upper} least)
    (closed : ∀ {lower upper}, lower ≤ upper → goal lower → goal upper) :
    least ≤ upper ↔ low ≤ upper ∧ goal upper :=
  ⟨fun above => ⟨isLeast.1.1.trans above, closed above isLeast.1.2⟩, fun reached => isLeast.2 reached⟩

namespace Slot

/-- A free slot is below every slot; two slots that ask for something compare only if they ask for
the same. -/
instance : PartialOrder Slot where
  le lower upper := lower = .any ∨ lower = upper
  le_refl _ := .inr rfl
  le_trans := by rintro a b c (rfl | rfl) (rfl | rfl) <;> simp
  le_antisymm := by
    rintro a b (rfl | same) (rfl | same') <;> simp_all

theorem le_iff {lower upper : Slot} : lower ≤ upper ↔ lower = .any ∨ lower = upper := Iff.rfl

@[simp] theorem any_le (slot : Slot) : any ≤ slot := .inl rfl

@[simp] theorem le_any_iff {slot : Slot} : slot ≤ any ↔ slot = any := by
  simp [le_iff]

theorem eq_of_le {lower upper : Slot} (below : lower ≤ upper) (asks : lower ≠ any) :
    upper = lower :=
  (below.resolve_left asks).symm

theorem compact_le_iff {slot : Slot} : compact ≤ slot ↔ slot = compact := by
  simp [le_iff, eq_comm]

/-- Two of the slots ask for something, and not for the same. -/
def Clash (slots : Set Slot) : Prop :=
  ∃ first ∈ slots, ∃ second ∈ slots, first ≠ any ∧ second ≠ any ∧ first ≠ second

theorem bddAbove_iff {slots : Set Slot} : BddAbove slots ↔ ¬Clash slots := by
  constructor
  · rintro ⟨upper, above⟩ ⟨first, member, second, member', asks, asks', differ⟩
    exact differ ((eq_of_le (above member) asks).symm.trans (eq_of_le (above member') asks'))
  · intro agree
    by_cases free : ∀ slot ∈ slots, slot = any
    · exact ⟨any, fun slot member => (free slot member).le⟩
    · push Not at free
      obtain ⟨first, member, asks⟩ := free
      refine ⟨first, fun second member' => ?_⟩
      by_contra above
      rw [le_iff, not_or] at above
      exact agree ⟨first, member, second, member', asks, above.1, Ne.symm above.2⟩

end Slot

namespace Requirement

/-- One requirement is below another if it is at every position. -/
instance : PartialOrder Requirement where
  le lower upper := ∀ position, lower.get position ≤ upper.get position
  le_refl _ _ := le_rfl
  le_trans _ _ _ first second position := (first position).trans (second position)
  le_antisymm _ _ first second := ext fun position => (first position).antisymm (second position)

theorem le_iff {lower upper : Requirement} :
    lower ≤ upper ↔ ∀ position, lower.get position ≤ upper.get position := Iff.rfl

@[simp] theorem empty_le (r : Requirement) : empty ≤ r := fun position => by simp

theorem clearAbove_le_iff {r upper : Requirement} {position : Nat} :
    r.clearAbove position ≤ upper ↔ ∀ place ≤ position, r.get place ≤ upper.get place := by
  simp only [le_iff, get_clearAbove]
  constructor
  · intro below place within
    simpa [within] using below place
  · intro below place
    by_cases within : place ≤ position
    · simpa [within] using below place within
    · simp [within]

theorem clearAbove_set {r : Requirement} {position widened : Nat} {slot : Slot}
    (within : position ≤ widened) :
    (r.set position slot).clearAbove widened = (r.clearAbove widened).set position slot := by
  ext other
  simp only [get_clearAbove, get_set]
  by_cases here : other = position
  · simp [here, within]
  · simp [here]

/-- Asking for a dense innermost position. -/
theorem set_zero_compact_le_iff {upper : Requirement} :
    empty.set 0 .compact ≤ upper ↔ upper.get 0 = .compact := by
  simp only [le_iff, get_set]
  constructor
  · intro below
    simpa [maxAxes, Slot.compact_le_iff] using below 0
  · intro dense position
    by_cases inner : position = 0
    · simp [inner, dense, maxAxes]
    · simp [inner]

/-- Tightening raises the requirement as little as the demand allows. -/
theorem tighten_ok {r after : Requirement} {position : Nat} {demanded : Slot} {changed : Bool}
    (tightened : r.tighten position demanded = .ok (after, changed)) (bound : position < maxAxes) :
    IsLeast {upper | r ≤ upper ∧ demanded ≤ upper.get position} after ∧
      (changed = true ↔ after ≠ r) := by
  unfold tighten at tightened
  split at tightened
  · cases tightened
    exact ⟨⟨⟨le_rfl, by simp⟩, fun upper above => above.1⟩, by simp⟩
  · rename_i free asks
    cases tightened
    refine ⟨⟨⟨fun place => ?_, by simp [get_set, bound]⟩, fun upper above place => ?_⟩, ?_⟩
    · by_cases here : place = position
      · simp [here, free]
      · simp [get_set, here]
    · by_cases here : place = position
      · simpa [get_set, here, bound] using above.2
      · simpa [get_set, here] using above.1 place
    · simp only [bound, decide_true, true_iff]
      intro same
      have found := congrArg (get · position) same
      simp only [get_set, bound, and_self, if_true, free] at found
      exact asks found
  · split at tightened
    · rename_i same
      cases tightened
      exact ⟨⟨⟨le_rfl, same.ge⟩, fun upper above => above.1⟩, by simp⟩
    · cases tightened

/-- One demand is refused if its place asks for something else already. -/
theorem tighten_eq_error_iff {r : Requirement} {position : Nat} {demanded : Slot}
    {conflict : StrideConflict} :
    r.tighten position demanded = .error conflict ↔ r.get position ≠ .any ∧ demanded ≠ .any ∧
      r.get position ≠ demanded ∧ conflict = ⟨position, r.get position, demanded⟩ := by
  unfold tighten
  split
  · simp
  · rename_i free _
    simp [free]
  · rename_i asks existing
    split
    · rename_i same
      simp [same]
    · rename_i differ
      simp only [Except.error.injEq, ne_eq, differ, not_false_eq_true, true_and]
      exact ⟨fun same => ⟨existing, asks, same.symm⟩, fun found => found.2.2.symm⟩

/-- A conflict leaves no requirement that meets both sides. -/
theorem tighten_error {r upper : Requirement} {position : Nat} {demanded : Slot}
    {conflict : StrideConflict} (failed : r.tighten position demanded = .error conflict)
    (above : r ≤ upper) : ¬demanded ≤ upper.get position := by
  obtain ⟨existing, asks, differ, -⟩ := tighten_eq_error_iff.mp failed
  intro met
  exact differ ((Slot.eq_of_le (above position) existing).symm.trans (Slot.eq_of_le met asks))

/-- A demand that is met already changes nothing. -/
theorem tighten_of_le {r : Requirement} {position : Nat} {demanded : Slot}
    (met : demanded ≤ r.get position) : r.tighten position demanded = .ok (r, false) := by
  rcases met with rfl | same
  · simp [tighten]
  · subst same
    unfold tighten
    split <;> simp_all

theorem tightenAll_spec (r : Requirement) (demands : List (Nat × Slot))
    (bound : ∀ demand ∈ demands, demand.1 < maxAxes) :
    match r.tightenAll demands with
    | (after, .ok changed) =>
      IsLeast {upper | r ≤ upper ∧ ∀ demand ∈ demands, demand.2 ≤ upper.get demand.1} after ∧
        (changed = true ↔ after ≠ r)
    | (_, .error _) => ¬∃ upper, r ≤ upper ∧ ∀ demand ∈ demands, demand.2 ≤ upper.get demand.1 := by
  induction demands generalizing r with
  | nil => simp [tightenAll, IsLeast, lowerBounds]
  | cons demand rest ih =>
    obtain ⟨position, demanded⟩ := demand
    have here := bound _ (List.mem_cons_self ..)
    simp only [tightenAll]
    cases tightened : r.tighten position demanded with
    | error conflict =>
      intro found
      obtain ⟨upper, above, met⟩ := found
      exact tighten_error tightened above (met _ (List.mem_cons_self ..))
    | ok outcome =>
      obtain ⟨middle, changed⟩ := outcome
      obtain ⟨isLeast, moved⟩ := tighten_ok tightened here
      have grown : r ≤ middle := isLeast.1.1
      have later := ih middle fun demand member => bound demand (List.mem_cons_of_mem _ member)
      -- The bounds of the whole list are those of its rest that are above the middle.
      have split (upper : Requirement) :
          (r ≤ upper ∧ ∀ demand ∈ (position, demanded) :: rest, demand.2 ≤ upper.get demand.1) ↔
            middle ≤ upper ∧ ∀ demand ∈ rest, demand.2 ≤ upper.get demand.1 := by
        rw [List.forall_mem_cons, ← and_assoc,
          le_iff_of_isLeast isLeast fun above met => met.trans (above position)]
      simp only [split]
      cases reached : middle.tightenAll rest with
      | mk after outcome =>
        rw [reached] at later
        cases outcome with
        | error conflict => exact later
        | ok changed' =>
          refine ⟨later.1, ?_⟩
          have above : middle ≤ after := later.1.1.1
          simp only [Bool.or_eq_true, moved, later.2]
          constructor
          · rintro differs same
            have stays : middle = r := le_antisymm (same ▸ above) grown
            rcases differs with moves | moves
            · exact moves stays
            · exact moves (same.trans stays.symm)
          · intro differs
            by_cases same : middle = r
            · exact .inr (same ▸ differs)
            · exact .inl same

theorem concrete_le_iff {r upper : Requirement} :
    (∀ demand ∈ r.concrete, demand.2 ≤ upper.get demand.1) ↔ r ≤ upper := by
  constructor
  · intro met position
    by_cases asks : r.get position = .any
    · simp [asks]
    · exact met _ (mem_concrete.mpr ⟨rfl, asks⟩)
  · intro below demand member
    obtain ⟨position, slot⟩ := demand
    obtain ⟨rfl, _⟩ := mem_concrete.mp member
    exact below position

/-- Merging two requirements gives their least upper bound, and says whether the first grew. -/
theorem merge_ok {r other merged : Requirement} {changed : Bool}
    (joined : r.merge other = (merged, .ok changed)) :
    IsLeast {upper | r ≤ upper ∧ other ≤ upper} merged ∧ (changed = true ↔ merged ≠ r) := by
  have spec := tightenAll_spec r other.concrete fun demand member => by
    obtain ⟨position, slot⟩ := demand
    obtain ⟨rfl, asks⟩ := mem_concrete.mp member
    exact Nat.lt_of_not_le fun past => asks (get_of_le past)
  rw [show r.tightenAll other.concrete = _ from joined] at spec
  simpa only [concrete_le_iff] using spec

theorem eq_of_tighten_ok {r after : Requirement} {position : Nat} {demanded : Slot} {changed : Bool}
    (tightened : r.tighten position demanded = .ok (after, changed)) :
    after = if changed then r.set position demanded else r := by
  unfold tighten at tightened
  split at tightened
  · cases tightened
    rfl
  · cases tightened
    by_cases bound : position < maxAxes
    · simp [bound]
    · ext other
      simp [get_set, bound]
  · split at tightened
    · cases tightened
      rfl
    · cases tightened

/-- Demands of different positions do not stand in each other's way: the conflict is between one of
them and what was there before all of them. -/
theorem tightenAll_error {r : Requirement} {demands : List (Nat × Slot)}
    {conflict : StrideConflict} (failed : (r.tightenAll demands).2 = .error conflict)
    (apart : demands.Pairwise (·.1 ≠ ·.1)) :
    (conflict.position, conflict.demanded) ∈ demands ∧
      r.tighten conflict.position conflict.demanded = .error conflict := by
  induction demands generalizing r with
  | nil => cases failed
  | cons demand rest ih =>
    obtain ⟨position, demanded⟩ := demand
    obtain ⟨differ, apart'⟩ := List.pairwise_cons.mp apart
    simp only [tightenAll] at failed
    split at failed
    · rename_i conflict' refused
      cases failed
      obtain ⟨-, -, -, rfl⟩ := tighten_eq_error_iff.mp refused
      exact ⟨List.mem_cons_self .., refused⟩
    · rename_i tightened changed entered
      have later : (tightened.tightenAll rest).2 = .error conflict := by
        cases outcome : (tightened.tightenAll rest).2 with
        | error conflict' => simpa [outcome, Except.map] using failed
        | ok changed' => simp [outcome, Except.map] at failed
      obtain ⟨member, refused⟩ := ih later apart'
      have kept : tightened.get conflict.position = r.get conflict.position := by
        rw [eq_of_tighten_ok entered]
        split
        · simp [get_set, (differ _ member).symm]
        · rfl
      rw [tighten_eq_error_iff, kept, ← tighten_eq_error_iff] at refused
      exact ⟨List.mem_cons_of_mem _ member, refused⟩

theorem pairwise_concrete (r : Requirement) : r.concrete.Pairwise (·.1 ≠ ·.1) := by
  refine List.pairwise_filterMap.mpr (List.nodup_range.imp fun {first second} differ => ?_)
  intro demand found demand' found'
  split at found
  · split at found'
    · cases found
      cases found'
      exact differ
    · cases found'
  · cases found

/-- A conflict of two requirements is at a position at which both ask for something. -/
theorem merge_conflict {r other reached : Requirement} {conflict : StrideConflict}
    (failed : r.merge other = (reached, .error conflict)) :
    conflict.existing = r.get conflict.position ∧
      conflict.demanded = other.get conflict.position ∧ conflict.existing ≠ .any ∧
      conflict.demanded ≠ .any ∧ conflict.existing ≠ conflict.demanded := by
  obtain ⟨member, refused⟩ :=
    tightenAll_error (congrArg Prod.snd failed) (pairwise_concrete other)
  obtain ⟨existing, asks, differ, same⟩ := tighten_eq_error_iff.mp refused
  have found : conflict.existing = r.get conflict.position := congrArg StrideConflict.existing same
  exact ⟨found, (mem_concrete.mp member).1.symm, found ▸ existing, asks, found ▸ differ⟩

/-- Merging fails only if the two have no upper bound. -/
theorem merge_error {r other reached upper : Requirement} {conflict : StrideConflict}
    (failed : r.merge other = (reached, .error conflict)) (above : r ≤ upper) : ¬other ≤ upper := by
  have spec := tightenAll_spec r other.concrete fun demand member => by
    obtain ⟨position, slot⟩ := demand
    obtain ⟨rfl, asks⟩ := mem_concrete.mp member
    exact Nat.lt_of_not_le fun past => asks (get_of_le past)
  rw [show r.tightenAll other.concrete = _ from failed] at spec
  intro met
  exact spec ⟨upper, above, concrete_le_iff.mpr met⟩

/-! ### Position by position -/

section

variable {r : Requirement} (asked : Nat → Slot → Prop)

/-- The least requirement that meets some demands asks at each position for the greatest of what is
asked there. -/
theorem isGreatest_get {after : Requirement}
    (least : IsLeast {upper | r ≤ upper ∧ ∀ position slot, asked position slot →
      slot ≤ upper.get position} after) (position : Nat) :
    IsGreatest {slot | slot = r.get position ∨ asked position slot} (after.get position) := by
  obtain ⟨grown, met⟩ := least.1
  have above : after.get position ∈
      upperBounds {slot | slot = r.get position ∨ asked position slot} := by
    rintro slot (rfl | demand)
    · exact grown position
    · exact met position slot demand
  refine ⟨?_, above⟩
  by_contra unasked
  -- A slot that nobody asks for could be freed.
  have free {slot : Slot} (member : slot = r.get position ∨ asked position slot) : slot = .any := by
    by_contra asks
    exact unasked (Slot.eq_of_le (above member) asks ▸ member)
  have enough : after ≤ after.set position .any := by
    refine least.2 ⟨fun place => ?_, fun place slot demand => ?_⟩
    · by_cases here : place = position
      · rw [here, free (.inl rfl)]
        exact Slot.any_le _
      · simpa [get_set, here] using grown place
    · by_cases here : place = position
      · rw [here] at demand
        rw [free (.inr demand)]
        exact Slot.any_le _
      · simpa [get_set, here] using met place slot demand
  have nothing : after.get position = .any := by
    by_cases bound : position < maxAxes
    · simpa [get_set, bound] using enough position
    · exact get_of_le (Nat.le_of_not_lt bound)
  exact unasked (.inl (nothing.trans (free (.inl rfl)).symm))

theorem isGreatest_merge {other merged : Requirement} {changed : Bool}
    (joined : r.merge other = (merged, .ok changed)) (position : Nat) :
    IsGreatest {r.get position, other.get position} (merged.get position) := by
  have least : IsLeast {upper | r ≤ upper ∧ ∀ place, other.get place ≤ upper.get place} merged :=
    (merge_ok joined).1
  exact isGreatest_get (fun place slot => slot = other.get place) (by simpa using least) position

/-- Demands can be met together unless two of them clash at one position. -/
theorem exists_upper_iff (bound : ∀ {position slot}, asked position slot → position < maxAxes) :
    (∃ upper, r ≤ upper ∧ ∀ position slot, asked position slot → slot ≤ upper.get position) ↔
      ∀ position, ¬Slot.Clash {slot | slot = r.get position ∨ asked position slot} := by
  simp only [← Slot.bddAbove_iff]
  constructor
  · rintro ⟨upper, above, met⟩ position
    refine ⟨upper.get position, ?_⟩
    rintro slot (rfl | demand)
    · exact above position
    · exact met position slot demand
  · intro bounded
    choose highest above using bounded
    have get (position : Nat) (inside : position < maxAxes) :
        (Requirement.mk (.ofFn fun place => highest place)).get position = highest position := by
      simp [Requirement.get, inside]
    refine ⟨⟨.ofFn fun place => highest place⟩, fun position => ?_, fun position slot demand => ?_⟩
    · by_cases inside : position < maxAxes
      · rw [get position inside]
        exact above position (.inl rfl)
      · simp [get_of_le (Nat.le_of_not_lt inside)]
    · rw [get position (bound demand)]
      exact above position (.inr demand)

end

end Requirement

end TensorLowering
