import TensorLowering.Axis

namespace TensorLowering

/-- Numbers keyed by axis: extents, offsets or byte strides. An axis without an entry is absent,
which is not the same as an entry of zero. -/
structure AxisMap where
  w : Option Nat := none
  h : Option Nat := none
  c : Option Nat := none
  n : Option Nat := none
  d : Option Nat := none
  deriving DecidableEq, Repr, Inhabited

namespace AxisMap

def empty : AxisMap := {}

def get? (m : AxisMap) : Axis → Option Nat
  | .w => m.w
  | .h => m.h
  | .c => m.c
  | .n => m.n
  | .d => m.d

def set (m : AxisMap) (axis : Axis) (value : Nat) : AxisMap :=
  match axis with
  | .w => { m with w := some value }
  | .h => { m with h := some value }
  | .c => { m with c := some value }
  | .n => { m with n := some value }
  | .d => { m with d := some value }

def has (m : AxisMap) (axis : Axis) : Bool := (m.get? axis).isSome

def axes (m : AxisMap) : List Axis := Axis.all.filter m.has

def toList (m : AxisMap) : List (Axis × Nat) :=
  Axis.all.filterMap fun axis => (m.get? axis).map (axis, ·)

/-- Enters the pairs from left to right, so that the last entry for an axis stays. -/
def ofList (pairs : List (Axis × Nat)) : AxisMap :=
  pairs.foldl (fun m pair => m.set pair.1 pair.2) empty

def size (m : AxisMap) : Nat := m.axes.length

def isEmpty (m : AxisMap) : Bool := m.size = 0

/-- The product of all values; one for the empty map. -/
def product (m : AxisMap) : Nat := m.toList.foldl (fun total pair => total * pair.2) 1

def text (m : AxisMap) : String :=
  let entries := m.toList.map fun pair => pair.1.text ++ ":" ++ toString pair.2
  "\x7b" ++ String.intercalate ", " entries ++ "\x7d"

@[ext] theorem ext {m m' : AxisMap} (same : ∀ axis, m.get? axis = m'.get? axis) : m = m' := by
  cases m
  cases m'
  simpa [get?] using And.intro (same .w) (And.intro (same .h) (And.intro (same .c)
    (And.intro (same .n) (same .d))))

@[simp] theorem get?_empty (axis : Axis) : empty.get? axis = none := by
  cases axis <;> rfl

theorem get?_set (m : AxisMap) (axis other : Axis) (value : Nat) :
    (m.set axis value).get? other = if other = axis then some value else m.get? other := by
  cases axis <;> cases other <;> rfl

@[simp] theorem mem_axes {m : AxisMap} {axis : Axis} : axis ∈ m.axes ↔ m.has axis := by
  simp [axes]

theorem nodup_axes (m : AxisMap) : m.axes.Nodup := Axis.nodup_all.filter _

theorem get?_eq_none_iff {m : AxisMap} {axis : Axis} : m.get? axis = none ↔ ¬m.has axis := by
  simp [has]

theorem has_set (m : AxisMap) (axis other : Axis) (value : Nat) :
    (m.set axis value).has other = (decide (other = axis) || m.has other) := by
  by_cases same : other = axis <;> simp [has, get?_set, same]

end AxisMap

end TensorLowering
