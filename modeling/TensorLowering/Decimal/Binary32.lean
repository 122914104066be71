namespace TensorLowering.Decimal

/-- What a single-precision number stands for. A finite one is `mantissa * 2 ^ exponent`, with the
sign apart so that the two zeros differ. -/
inductive Binary32 where
  | nan
  | infinite (negative : Bool)
  | finite (negative : Bool) (mantissa : Nat) (exponent : Int)
  deriving DecidableEq, Repr

namespace Binary32

/-- A mantissa has 23 bits after its leading one; this is the mantissa with the leading one
alone, and the number of fractions that may follow it. -/
def leadingOne : Nat := 0x800000

/-- The exponent of the numbers below the smallest normal one. -/
def leastExponent : Int := -149

/-- Splits the bit pattern into its sign, its eight exponent bits and its fraction bits. -/
def ofFloat (x : Float32) : Binary32 :=
  let bits := x.toBits.toNat
  let negative := 0x80000000 ≤ bits
  let biased := bits / leadingOne % 256
  let fraction := bits % leadingOne
  if biased = 255 then
    if fraction = 0 then infinite negative else nan
  else if biased = 0 then
    finite negative fraction leastExponent
  else
    finite negative (leadingOne + fraction) (leastExponent + (biased - 1 : Nat))

end Binary32

/-- The reals that round to a positive binary number, in units of a quarter of its last place:
the interval reaches half a place up and down, but only a quarter down where the binary exponent
changes. -/
structure Rounding where
  low : Nat
  middle : Nat
  high : Nat
  exponent : Int
  /-- Whether the two ends themselves round to the number. -/
  closed : Bool
  deriving DecidableEq, Repr

/-- The interval of a positive number `mantissa * 2 ^ exponent`. A tie goes to the even mantissa,
so an even number owns its ends. -/
def Rounding.ofBinary (mantissa : Nat) (exponent : Int) : Rounding :=
  let narrow := mantissa = Binary32.leadingOne ∧ Binary32.leastExponent < exponent
  { low := 4 * mantissa - (if narrow then 1 else 2)
    middle := 4 * mantissa
    high := 4 * mantissa + 2
    exponent := exponent - 2
    closed := mantissa % 2 = 0 }

end TensorLowering.Decimal
