import TensorLowering.Proofs.Compilation

namespace TensorLowering.Graph

open Image

variable {g : Graph}

end TensorLowering.Graph
