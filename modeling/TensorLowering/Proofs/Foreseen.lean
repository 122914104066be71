import TensorLowering.Error

namespace TensorLowering

/-- The ways in which lowering can fail that are up to the network and to the bound on rounds, with
what has to be the case for each. -/
inductive Foreseen (maxRounds : Nat) : LoweringError → Prop
  | orphan {tensor : String} : Foreseen maxRounds (.contract (.orphan tensor))
  | unproduced {tensor : String} : Foreseen maxRounds (.contract (.unproduced tensor))
  | scaleMismatch {tensor stage : String} {current requested : Float32} :
      Foreseen maxRounds (.negotiation (.scaleMismatch tensor stage current requested))
  | uncovered {tensor : String} {order : AxisOrder} {extents : AxisMap} :
      ¬order.covers extents →
      Foreseen maxRounds (.contract (.tensorFault tensor (.orderDoesNotCover order extents)))
  | beyondRank {tensor stage : String} {position rank : Nat} : rank ≤ position →
      Foreseen maxRounds (.contract (.tensorFault tensor (.demandBeyondRank stage position rank)))
  | conflict {tensor stage : String} {axis : Axis} {existing demanded : Slot}
      {source : Option String} :
      Foreseen maxRounds (.negotiation (.conflict tensor axis existing demanded source stage))
  | notConverged {passes : List String} {rounds : Nat} : maxRounds ≤ 1 →
      Foreseen maxRounds (.negotiation (.notConverged passes rounds))
  | infeasibleStride {tensor : String} {stride : InfeasibleStride} :
      stride.demanded.toNat < stride.minimum →
      Foreseen maxRounds (.negotiation (.infeasibleStride tensor stride))
  | notWider {stage output input : String} {outputExtents inputExtents : AxisMap} :
      (∀ axis extent, outputExtents.get? axis = some extent →
        inputExtents.get? axis = some extent) →
      Foreseen maxRounds (.contract (.stageFault stage .expand
        (.notWider output outputExtents input inputExtents)))
  | exceedsOutput {stage : String} {axis : Axis} {offset inputExtent outputExtent : Nat} :
      outputExtent < offset + inputExtent →
      Foreseen maxRounds (.contract (.stageFault stage .expand
        (.exceedsOutput axis offset inputExtent outputExtent)))
  | foreignOffset {stage : String} {axis : Axis} :
      Foreseen maxRounds (.contract (.stageFault stage .expand (.foreignOffset axis)))
  | extentsDiffer {stage input output : String} {kind : Kind}
      {inputExtents outputExtents : AxisMap} : kind ≠ .expand → inputExtents ≠ outputExtents →
      Foreseen maxRounds (.contract (.stageFault stage kind
        (.extentsDiffer input inputExtents output outputExtents)))
  | nonFinite {stage : String} {params : PowerParams} : params.isFinite = false →
      Foreseen maxRounds (.contract (.stageFault stage .power (.nonFinite params)))
  | overflow {field : String} {value : Nat} :
      field ∈ ["extent", "stride", "copy byte count"] → UInt32.size ≤ value →
      Foreseen maxRounds (.image (.overflow field value))

/-- An error that is foreseen, or that the image has because there are more tensors than a word can
name. -/
def Explained (maxRounds tensors : Nat) (error : LoweringError) : Prop :=
  Foreseen maxRounds error ∨ UInt32.size ≤ tensors ∧ ∃ failure, error = .image failure

namespace LoweringError

/-- The errors that tell of a fault in the program itself: a graph that its own checks would not
have let come about, or a decision that an earlier pass should have made. -/
def IsDefect : LoweringError → Prop
  | contract (.orphan _) => False
  | contract (.unproduced _) => False
  | contract (.stageFault _ _ fault) =>
    fault ∈ [.modeNotFinalized, .writtenBeforeFinalization, .axesDiffer, .nothingWidened] ∨
      ∃ axis, fault = .inputLacksAxis axis
  | contract (.tensorFault _ fault) =>
    (∃ position, fault = .noAxisAt position) ∨ ∃ violation, fault = .layout violation
  | contract _ => True
  | negotiation _ => False
  | image (.overflow field _) => field ∈ ["data index", "axis count", "input count", "output count",
      "stage count"]
  | image _ => True
  | internal _ => True

end LoweringError

theorem Foreseen.not_isDefect {maxRounds : Nat} {error : LoweringError}
    (foreseen : Foreseen maxRounds error) : ¬error.IsDefect := by
  cases foreseen with
  | overflow field _ =>
    simp only [List.mem_cons, List.not_mem_nil, or_false] at field
    rcases field with rfl | rfl | rfl <;> simp [LoweringError.IsDefect]
  | _ => simp [LoweringError.IsDefect]

end TensorLowering
