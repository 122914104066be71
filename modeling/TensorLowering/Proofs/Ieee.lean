import Mathlib

namespace TensorLowering.Ieee

open Float.Model

variable {x y : Float32}

theorem beq_self_of_beq (same : x == y) : x == x := BEq.trans same (BEq.symm same)

theorem beq_self_of_isNaN_eq_false (number : x.isNaN = false) : x == x := by
  simpa using number

theorem one_beq_one : (1.0 : Float32) == 1.0 := by decide

/-- Equal numbers are the same one, up to the sign of a zero. -/
theorem eq_of_beq (same : x == y) (nonzero : ¬y == 0) : x = y := by
  obtain ⟨-, -, rfl | ⟨-, rfl⟩ | ⟨-, rfl⟩⟩ := Float32.beq_iff_ne_nan_and_eq.mp same
  · rfl
  · exact absurd (by decide) nonzero
  · exact absurd (by decide) nonzero

theorem eq_one_of_beq (same : x == 1.0) : x = 1.0 := eq_of_beq same (by decide)

/-- A new number, unless the old one equals it already. -/
def keepEqual (old new : Float32) : Float32 := if old == new then old else new

theorem keepEqual_beq (old : Float32) {new : Float32} (number : new == new) :
    keepEqual old new == new := by
  unfold keepEqual
  split <;> assumption

theorem keepEqual_eq_left_iff {old new : Float32} (number : new == new) :
    keepEqual old new = old ↔ old == new := by
  refine ⟨fun same => ?_, fun same => by simp [keepEqual, same]⟩
  rw [← same]
  exact keepEqual_beq old number

theorem keepEqual_of_nonzero (old : Float32) {new : Float32} (nonzero : ¬new == 0) :
    keepEqual old new = new := by
  unfold keepEqual
  split
  · exact eq_of_beq (by assumption) nonzero
  · rfl

theorem eq_of_keepEqual_nonzero {old new : Float32} (nonzero : ¬keepEqual old new == 0) :
    keepEqual old new = new := by
  unfold keepEqual at *
  split
  · rename_i same
    rw [if_pos same] at nonzero
    exact (eq_of_beq (BEq.symm same) nonzero).symm
  · rfl

theorem keepEqual_self (x : Float32) : keepEqual x x = x := by
  unfold keepEqual
  split <;> rfl

/-- What a number stands for; an infinity and NaN stand for none. -/
def value? (x : Float32) : Option ℚ :=
  match x.toModel.unpack with
  | .zero _ => some 0
  | .finite sign mantissa exponent _ => some (sign.apply mantissa * 2 ^ exponent)
  | _ => none

theorem value?_one : value? 1.0 = some 1 := by
  decide +kernel

theorem exists_value (finite : x.isFinite) : ∃ number, value? x = some number := by
  change x.toModel.unpack.isFinite = true at finite
  unfold value?
  cases unpacked : x.toModel.unpack with
  | zero sign => exact ⟨_, rfl⟩
  | finite sign mantissa exponent => exact ⟨_, rfl⟩
  | infinity sign => simp [unpacked, UnpackedFloat.isFinite] at finite
  | notANumber => simp [unpacked, UnpackedFloat.isFinite] at finite

theorem value?_neg_zero : value? (-0) = value? 0 := by
  decide +kernel

/-- Equal numbers stand for the same. -/
theorem value?_eq_of_beq (same : x == y) : value? x = value? y := by
  obtain ⟨-, -, rfl | ⟨rfl, rfl⟩ | ⟨rfl, rfl⟩⟩ := Float32.beq_iff_ne_nan_and_eq.mp same
  · rfl
  · exact value?_neg_zero.symm
  · exact value?_neg_zero

end TensorLowering.Ieee
