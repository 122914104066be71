namespace TensorLowering

/-- A named tensor axis. The constructors stand in canonical order, innermost first. -/
inductive Axis where
  | w
  | h
  | c
  | n
  | d
  deriving DecidableEq, Repr

/-- A tensor has at most five axes, since no axis occurs twice. -/
def maxAxes : Nat := 5

namespace Axis

def all : List Axis := [w, h, c, n, d]

/-- The wire code of an axis is its place in the canonical order. -/
def code : Axis → Nat
  | w => 0
  | h => 1
  | c => 2
  | n => 3
  | d => 4

def ofCode? (code : Nat) : Option Axis := all[code]?

def letter : Axis → Char
  | w => 'W'
  | h => 'H'
  | c => 'C'
  | n => 'N'
  | d => 'D'

/-- Reads an axis letter in either case. Only ASCII letters have a case here. -/
def ofLetter? (letter : Char) : Option Axis :=
  match letter.toUpper with
  | 'W' => some w
  | 'H' => some h
  | 'C' => some c
  | 'N' => some n
  | 'D' => some d
  | _ => none

def text (axis : Axis) : String := axis.letter.toString

@[simp] theorem mem_all (axis : Axis) : axis ∈ all := by
  cases axis <;> decide

@[simp] theorem ofCode?_code (axis : Axis) : ofCode? axis.code = some axis := by
  cases axis <;> rfl

@[simp] theorem ofLetter?_letter (axis : Axis) : ofLetter? axis.letter = some axis := by
  cases axis <;> decide

theorem nodup_all : all.Nodup := by decide

end Axis

end TensorLowering
