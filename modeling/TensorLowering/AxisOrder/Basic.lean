import TensorLowering.AxisMap

namespace TensorLowering

/-- The memory order of a tensor's axes. Position 0 is the innermost axis, the one that varies
fastest. -/
structure AxisOrder where
  axes : List Axis
  deriving DecidableEq, Repr

namespace AxisOrder

inductive Error where
  | empty
  | tooManyAxes
  | duplicateAxis (axis : Axis)
  | unknownAxis (letter : Char)
  | invalidCode (code : UInt32)
  deriving DecidableEq, Repr

def Error.message : Error → String
  | empty => "dims order must name at least one axis"
  | tooManyAxes => "dims order names more than five axes"
  | duplicateAxis axis => "axis " ++ axis.text ++ " appears twice in dims order"
  | unknownAxis letter => "unknown axis '" ++ letter.toString ++ "'"
  | invalidCode code =>
    "invalid dims order code 0x" ++ String.ofList (Nat.toDigits 16 code.toNat)

/-- The first axis that already occurred, counting those in `seen` as earlier. -/
def firstRepeated? (seen : List Axis) : List Axis → Option Axis
  | [] => none
  | axis :: rest => if axis ∈ seen then some axis else firstRepeated? (axis :: seen) rest

/-- Takes axes listed innermost first. -/
def ofAxes (axes : List Axis) : Except Error AxisOrder :=
  if axes = [] then
    .error .empty
  else if maxAxes < axes.length then
    .error .tooManyAxes
  else
    match firstRepeated? [] axes with
    | some axis => .error (.duplicateAxis axis)
    | none => .ok ⟨axes⟩

/-- The planar order over the axes of a shape: canonical nesting. It names no axis for the shape
without axes, so it need not be one that `ofAxes` takes. -/
def planar (extents : AxisMap) : AxisOrder := ⟨extents.axes⟩

def rank (order : AxisOrder) : Nat := order.axes.length

/-- The position of an axis, counted from the innermost. -/
def position? (order : AxisOrder) (axis : Axis) : Option Nat := order.axes.idxOf? axis

def axisAt? (order : AxisOrder) (position : Nat) : Option Axis := order.axes[position]?

/-- Whether the order has as many axes as the shape and names only axes of it. -/
def covers (order : AxisOrder) (extents : AxisMap) : Bool :=
  order.rank = extents.size && order.axes.all extents.has

theorem firstRepeated?_eq_none_iff {seen axes : List Axis} :
    firstRepeated? seen axes = none ↔ axes.Nodup ∧ ∀ axis ∈ axes, axis ∉ seen := by
  induction axes generalizing seen with
  | nil => simp [firstRepeated?]
  | cons axis rest ih =>
    by_cases met : axis ∈ seen
    · simp [firstRepeated?, met]
    · simp only [firstRepeated?, met, if_false, ih, List.nodup_cons, List.mem_cons, not_or]
      grind

theorem ofAxes_eq_ok_iff {axes : List Axis} {order : AxisOrder} :
    ofAxes axes = .ok order ↔
      order.axes = axes ∧ axes ≠ [] ∧ axes.length ≤ maxAxes ∧ axes.Nodup := by
  by_cases isEmpty : axes = []
  · simp [ofAxes, isEmpty]
  · by_cases tooMany : maxAxes < axes.length
    · simp only [ofAxes, isEmpty, tooMany, if_false, if_true, reduceCtorEq, false_iff]
      intro found
      obtain ⟨_, _, bound, _⟩ := found
      omega
    · have repeats : firstRepeated? [] axes = none ↔ axes.Nodup := by
        simp [firstRepeated?_eq_none_iff]
      simp only [ofAxes, isEmpty, tooMany, if_false]
      cases found : firstRepeated? [] axes with
      | some axis =>
        simp only [reduceCtorEq, false_iff]
        intro found
        obtain ⟨_, _, _, nodup⟩ := found
        exact absurd (found.symm.trans (repeats.2 nodup)) (Option.some_ne_none axis)
      | none =>
        simp only [Except.ok.injEq]
        constructor
        · rintro rfl
          exact ⟨rfl, isEmpty, Nat.le_of_not_lt tooMany, repeats.1 found⟩
        · intro found
          obtain ⟨rfl, _⟩ := found
          rfl

end AxisOrder

end TensorLowering
