import TensorLowering.Axis

namespace TensorLowering

/-- What one memory position asks of its byte stride. -/
inductive Slot where
  /-- Nothing is asked; the position gets the smallest stride that holds the inner ones. -/
  | any
  /-- No padding between this position and the next inner one. -/
  | compact
  | fixed (bytes : UInt32)
  deriving DecidableEq, Repr, Inhabited

namespace Slot

def isConcrete : Slot → Bool
  | any => false
  | _ => true

def text : Slot → String
  | any => "any"
  | compact => "compact"
  | fixed bytes => "fixed(" ++ toString bytes.toNat ++ ")"

theorem isConcrete_iff {slot : Slot} : slot.isConcrete = true ↔ slot ≠ any := by
  cases slot <;> simp [isConcrete]

end Slot

/-- Two concrete demands that disagree on one position. -/
structure StrideConflict where
  position : Nat
  existing : Slot
  demanded : Slot
  deriving DecidableEq, Repr

/-- One slot for each memory position. Which axis a position holds is up to the tensor's order. -/
structure Requirement where
  slots : Vector Slot maxAxes
  deriving DecidableEq

namespace Requirement

def empty : Requirement := ⟨.replicate maxAxes .any⟩

/-- A dense tensor: no padding anywhere. -/
def compact : Requirement := ⟨.replicate maxAxes .compact⟩

instance : Inhabited Requirement := ⟨empty⟩

/-- Positions past the last slot ask for nothing. -/
def get (r : Requirement) (position : Nat) : Slot := (r.slots[position]?).getD .any

/-- Puts a slot in place whatever was there. A position past the last slot is ignored. -/
def set (r : Requirement) (position : Nat) (slot : Slot) : Requirement :=
  ⟨r.slots.setIfInBounds position slot⟩

def ofList (slots : List (Nat × Slot)) : Requirement :=
  slots.foldl (fun r pair => r.set pair.1 pair.2) empty

def clearAbove (r : Requirement) (position : Nat) : Requirement :=
  ⟨.ofFn fun place => if place.val ≤ position then r.slots[place] else .any⟩

/-- The positions that ask for something, in increasing order. -/
def concrete (r : Requirement) : List (Nat × Slot) :=
  (List.range maxAxes).filterMap fun position =>
    if (r.get position).isConcrete then some (position, r.get position) else none

def isEmpty (r : Requirement) : Bool := r.slots.all fun slot => !slot.isConcrete

/-- Adds one demand: a free position takes it, an equal demand changes nothing, and a different
one is a conflict. The flag says whether the requirement changed. -/
def tighten (r : Requirement) (position : Nat) (demanded : Slot) :
    Except StrideConflict (Requirement × Bool) :=
  match r.get position, demanded with
  | _, .any => .ok (r, false)
  | .any, _ => .ok (r.set position demanded, decide (position < maxAxes))
  | existing, _ =>
    if existing = demanded then .ok (r, false) else .error ⟨position, existing, demanded⟩

/-- Adds demands from left to right and stops at the first conflict. What was added before the
conflict is in the requirement that comes back. -/
def tightenAll (r : Requirement) :
    List (Nat × Slot) → Requirement × Except StrideConflict Bool
  | [] => (r, .ok false)
  | (position, demanded) :: rest =>
    match r.tighten position demanded with
    | .error conflict => (r, .error conflict)
    | .ok (tightened, changed) =>
      let (reached, outcome) := tightened.tightenAll rest
      (reached, outcome.map (changed || ·))

def merge (r other : Requirement) : Requirement × Except StrideConflict Bool :=
  r.tightenAll other.concrete

/-- Whether a stride meets the slot, where `minimum` is the stride without padding. -/
def isSatisfiedBy (r : Requirement) (position stride minimum : Nat) : Bool :=
  match r.get position with
  | .any => minimum ≤ stride
  | .compact => stride = minimum
  | .fixed bytes => stride = bytes.toNat

def text (r : Requirement) : String :=
  "[" ++ String.intercalate ", " (r.slots.toList.map Slot.text) ++ "]"

@[ext] theorem ext {r r' : Requirement} (same : ∀ position, r.get position = r'.get position) :
    r = r' := by
  obtain ⟨slots⟩ := r
  obtain ⟨slots'⟩ := r'
  congr 1
  ext position bound : 1
  simpa [get, bound] using same position

@[simp] theorem get_empty (position : Nat) : empty.get position = .any := by
  simp only [get, empty, Vector.getElem?_replicate]
  split <;> rfl

theorem get_of_le {r : Requirement} {position : Nat} (past : maxAxes ≤ position) :
    r.get position = .any := by
  simp [get, past]

theorem get_set (r : Requirement) (position other : Nat) (slot : Slot) :
    (r.set position slot).get other =
      if other = position ∧ position < maxAxes then slot else r.get other := by
  by_cases same : other = position
  · subst same
    by_cases bound : other < maxAxes
    · simp [get, set, bound]
    · simp [get, set, bound]
  · simp [get, set, Vector.getElem?_setIfInBounds_ne (Ne.symm same), same]

theorem get_clearAbove (r : Requirement) (position other : Nat) :
    (r.clearAbove position).get other = if other ≤ position then r.get other else .any := by
  by_cases bound : other < maxAxes
  · by_cases low : other ≤ position <;> simp [get, clearAbove, bound, low]
  · simp [get_of_le (Nat.le_of_not_lt bound)]

theorem mem_concrete {r : Requirement} {position : Nat} {slot : Slot} :
    (position, slot) ∈ r.concrete ↔ r.get position = slot ∧ slot ≠ .any := by
  simp only [concrete, List.mem_filterMap, List.mem_range]
  constructor
  · intro given
    obtain ⟨place, bound, found⟩ := given
    split at found
    · rename_i asks
      cases found
      exact ⟨rfl, Slot.isConcrete_iff.mp asks⟩
    · cases found
  · intro found
    obtain ⟨rfl, asks⟩ := found
    refine ⟨position, ?_, by simp [Slot.isConcrete_iff.mpr asks]⟩
    exact Nat.lt_of_not_le fun past => asks (get_of_le past)

end Requirement

end TensorLowering
