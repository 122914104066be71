import TensorLowering.AxisOrder.Basic
import TensorLowering.Text.Blank

namespace TensorLowering.AxisOrder

/-- The letters of the axes, outermost first. -/
def text (order : AxisOrder) : String := String.ofList (order.axes.reverse.map Axis.letter)

def readAxes : List Char → Except Error (List Axis)
  | [] => .ok []
  | letter :: rest =>
    match Axis.ofLetter? letter with
    | none => .error (.unknownAxis letter)
    | some axis => (readAxes rest).map (axis :: ·)

/-- Reads an order from its letters, outermost first, blanks around them aside. The letters are
looked at from the end, since that is where the innermost axis stands. -/
def ofText (text : String) : Except Error AxisOrder :=
  readAxes (Text.trim text.toList).reverse >>= ofAxes

end TensorLowering.AxisOrder
