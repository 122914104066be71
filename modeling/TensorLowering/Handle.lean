namespace TensorLowering

/-- Names a tensor of a graph by the order in which the tensors were added. -/
structure TensorId where
  index : Nat
  deriving DecidableEq, Repr

/-- Names a stage of a graph by the order in which the stages were added. -/
structure StageId where
  index : Nat
  deriving DecidableEq, Repr

def TensorId.text (id : TensorId) : String := "%d" ++ toString id.index

def StageId.text (id : StageId) : String := "%s" ++ toString id.index

end TensorLowering
