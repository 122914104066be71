import TensorLowering.TensorMap
import TensorLowering.Text.Blank

namespace TensorLowering

structure Settings where
  maxRounds : Nat := 8
  propagateScales : Bool := false
  /-- The scales of the network inputs; one for an input without an entry. -/
  inputScales : TensorMap Float32 := .empty
  /-- Whether each pass is to be reported to the log. The lowering is the same either way. -/
  logPassStats : Bool := false
  deriving DecidableEq

namespace Settings

/-- The value of a text of ASCII digits, if it is one and fits in 64 bits. -/
def readCount? (digits : List Char) : Option Nat :=
  if digits.isEmpty || !digits.all Char.isDigit then
    none
  else
    let value := digits.foldl (fun value digit => 10 * value + (digit.toNat - '0'.toNat)) 0
    if value < UInt64.size then some value else none

/-- A positive number with blanks around it and perhaps a plus sign before it. -/
def readPositive? (text : String) : Option Nat :=
  let digits :=
    match Text.trim text.toList with
    | '+' :: digits => digits
    | digits => digits
  (readCount? digits).filter (0 < ·)

/-- Whether a text means yes. Everything that does not means no. -/
def readFlag (text : String) : Bool :=
  String.ofList ((Text.trim text.toList).map Char.toLower) ∈ ["1", "true", "yes", "on"]

/-- The default settings, except for what the environment says about the bound on rounds and about
the log. A bound that cannot be read is as good as none. -/
def ofEnvironment (maxRounds passStats : Option String) : Settings :=
  let settings : Settings := {}
  { settings with
    maxRounds := (maxRounds.bind readPositive?).getD settings.maxRounds
    logPassStats := passStats.any readFlag }

end Settings

end TensorLowering
