import TensorLowering.Decimal.Shortest

namespace TensorLowering.Decimal

/-- How a finite number is written once its digits are chosen. -/
structure Style where
  tie : Tie
  /-- Whether the first digit's power of ten lets the number be written without an exponent. -/
  positional : Int → Bool
  /-- Whether a whole number written without an exponent ends in a point and a zero. -/
  wholePoint : Bool

namespace Style

/-- Writes the digits without an exponent, with zeros between them and the point if need be. -/
def positionalText (style : Style) (digits : List Char) (beforePoint : Int) : List Char :=
  if beforePoint ≤ 0 then
    ['0', '.'] ++ .replicate (-beforePoint).toNat '0' ++ digits
  else if digits.length ≤ beforePoint.toNat then
    digits ++ .replicate (beforePoint.toNat - digits.length) '0' ++
      (if style.wholePoint then ['.', '0'] else [])
  else
    digits.take beforePoint.toNat ++ ['.'] ++ digits.drop beforePoint.toNat

/-- Writes one digit before the point and the signed power of ten after an `e`. -/
def scientificText (digits : List Char) (leading : Int) : List Char :=
  let fraction := digits.drop 1
  digits.take 1 ++ (if fraction.isEmpty then [] else '.' :: fraction) ++
    ['e', if leading < 0 then '-' else '+'] ++ Nat.toDigits 10 leading.natAbs

def magnitude (style : Style) (mantissa : Nat) (exponent : Int) : List Char :=
  if mantissa = 0 then
    if style.wholePoint then ['0', '.', '0'] else ['0']
  else
    let value := shortest style.tie mantissa exponent
    let digits := Nat.toDigits 10 value.digits
    let beforePoint := digits.length + value.exponent
    if style.positional (beforePoint - 1) then
      style.positionalText digits beforePoint
    else
      scientificText digits (beforePoint - 1)

def finiteText (style : Style) (negative : Bool) (mantissa : Nat) (exponent : Int) : String :=
  String.ofList ((if negative then ['-'] else []) ++ style.magnitude mantissa exponent)

end Style

end TensorLowering.Decimal
