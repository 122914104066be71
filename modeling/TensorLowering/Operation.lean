import TensorLowering.AxisMap
import TensorLowering.Stride.Requirement

namespace TensorLowering

/-- What a copy asks of the strides on its two sides. -/
structure CopyDemands where
  input : Requirement := .empty
  output : Requirement := .empty
  deriving DecidableEq

inductive CopyMode where
  /-- Both sides are dense, so one burst moves the whole tensor. -/
  | linear
  /-- At least one side is padded, so every position is walked. -/
  | strided
  deriving DecidableEq, Repr

namespace CopyMode

def code : CopyMode → UInt32
  | linear => 0
  | strided => 1

def name : CopyMode → String
  | linear => "Linear"
  | strided => "Strided"

end CopyMode

/-- The numbers of the elementwise kernel `(shift + scale * x) ^ power`. -/
structure PowerParams where
  scale : Float32 := 1.0
  shift : Float32 := 0.0
  power : Float32 := 1.0
  deriving DecidableEq

namespace PowerParams

/-- A linear kernel takes a scaled input if its shift is scaled too; any other has to run on
unscaled values. -/
def commutesWithScale (params : PowerParams) : Bool := params.power == 1.0

def isFinite (params : PowerParams) : Bool :=
  params.scale.isFinite && params.shift.isFinite && params.power.isFinite

end PowerParams

inductive Kind where
  | expand
  | copy
  | power
  deriving DecidableEq, Repr

/-- What executes an operation. -/
inductive Category where
  /-- Nothing does: input and output share memory, and no record is written. -/
  | special
  | dma
  | shave
  deriving DecidableEq, Repr

namespace Category

def code : Category → UInt32
  | special => 0
  | dma => 1
  | shave => 2

def name : Category → String
  | special => "Special"
  | dma => "Dma"
  | shave => "Shave"

end Category

structure Arity where
  inputs : Nat
  outputs : Nat
  deriving DecidableEq, Repr

namespace Kind

def text : Kind → String
  | expand => "expand"
  | copy => "copy"
  | power => "power"

def name : Kind → String
  | expand => "Expand"
  | copy => "Copy"
  | power => "Power"

/-- The wire code at the head of a stage record. -/
def code : Kind → UInt32
  | copy => 1
  | power => 2
  | expand => 3

def category : Kind → Category
  | expand => .special
  | copy => .dma
  | power => .shave

/-- Every kind reads one tensor and writes one. -/
def arity : Kind → Arity
  | expand => ⟨1, 1⟩
  | copy => ⟨1, 1⟩
  | power => ⟨1, 1⟩

end Kind

inductive Operation where
  /-- Places the input inside a wider output, at the given offset. -/
  | expand (offset : AxisMap)
  /-- Moves a tensor to another buffer of the same shape. The mode is chosen once the strides of
  both sides are resolved. -/
  | copy (demands : CopyDemands) (mode : Option CopyMode)
  | power (params : PowerParams)
  deriving DecidableEq

def Operation.kind : Operation → Kind
  | expand _ => .expand
  | copy _ _ => .copy
  | power _ => .power

end TensorLowering
