import TensorLowering.Decimal.Binary32

namespace TensorLowering.Decimal

/-- The decimal number `digits * 10 ^ exponent`. -/
structure Scientific where
  digits : Nat
  exponent : Int
  deriving DecidableEq, Repr

inductive Tie where
  | up
  | even
  deriving DecidableEq, Repr

/-- The interval and one step of a decimal grid in a unit common to both, so that only naturals are
left to compare. -/
structure Measured where
  low : Nat
  middle : Nat
  high : Nat
  step : Nat
  closed : Bool

/-- Measures the interval against the grid of the multiples of `10 ^ grid`. -/
def Rounding.measure (r : Rounding) (grid : Int) : Measured :=
  let binary := Nat.pow 2 r.exponent.toNat * Nat.pow 10 (-grid).toNat
  { low := r.low * binary
    middle := r.middle * binary
    high := r.high * binary
    step := Nat.pow 10 grid.toNat * Nat.pow 2 (-r.exponent).toNat
    closed := r.closed }

def Measured.holds (m : Measured) (point : Nat) : Bool :=
  if m.closed then
    m.low ≤ point * m.step && point * m.step ≤ m.high
  else
    m.low < point * m.step && point * m.step < m.high

/-- The nearer of the two grid points around the middle, as far as they lie in the interval. If
any grid point lies in it, one of these two does. -/
def Measured.nearest? (m : Measured) (tie : Tie) : Option Nat :=
  let below := m.middle / m.step
  let down := m.middle - below * m.step
  let up := (below + 1) * m.step - m.middle
  match m.holds below, m.holds (below + 1) with
  | false, false => none
  | true, false => some below
  | false, true => some (below + 1)
  | true, true =>
    if down < up then some below
    else if up < down then some (below + 1)
    else
      match tie with
      | .up => some (below + 1)
      | .even => some (if below % 2 = 0 then below else below + 1)

/-- Looks at `finer + 1` grids from `10 ^ grid` downwards and answers on the first that has a point
in the interval. The last grid answers in any case. -/
def Rounding.search (r : Rounding) (tie : Tie) (grid : Int) : Nat → Scientific
  | 0 => ⟨((r.measure grid).nearest? tie).getD ((r.measure grid).middle / (r.measure grid).step), grid⟩
  | finer + 1 =>
    match (r.measure grid).nearest? tie with
    | some digits => ⟨digits, grid⟩
    | none => r.search tie (grid - 1) finer

/-- The fewest digits that read back as the number, and of those the nearest to it. The search
starts at a power of ten above the number and ends at one below half its last place, since a power
of ten is at least the power of two with the same exponent, or at most if that is negative. -/
def shortest (tie : Tie) (mantissa : Nat) (exponent : Int) : Scientific :=
  let r := Rounding.ofBinary mantissa exponent
  let coarsest := max 0 (exponent + (mantissa.log2 + 1 : Nat))
  let finest := min 0 r.exponent
  r.search tie coarsest (coarsest - finest).toNat

end TensorLowering.Decimal
