import TensorLowering.AxisOrder.Basic

namespace TensorLowering.AxisOrder

/-- One hexadecimal digit for each axis, the innermost in the lowest place, holding the axis code
plus one: no digit of an axis is zero. -/
def pack : List Axis → Nat
  | [] => 0
  | axis :: rest => (axis.code + 1) + 16 * pack rest

def axisOfDigit? : Nat → Option Axis
  | 0 => none
  | code + 1 => Axis.ofCode? code

/-- Reads hexadecimal digits from the lowest place until nothing is left. -/
def unpack? (code : Nat) : Option (List Axis) :=
  if code = 0 then
    some []
  else
    match axisOfDigit? (code % 16) with
    | none => none
    | some axis => (unpack? (code / 16)).map (axis :: ·)

/-- The wire code. An order has at most five axes, so the packed digits fit in a word. -/
def code (order : AxisOrder) : UInt32 := UInt32.ofNat (pack order.axes)

/-- Reads a wire code. Whatever is wrong with it, the code itself is reported. -/
def ofCode (code : UInt32) : Except Error AxisOrder :=
  match unpack? code.toNat with
  | none => .error (.invalidCode code)
  | some axes =>
    match ofAxes axes with
    | .ok order => .ok order
    | .error _ => .error (.invalidCode code)

end TensorLowering.AxisOrder
