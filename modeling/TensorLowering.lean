import TensorLowering.Compile
import TensorLowering.Graph.Snapshot
import TensorLowering.Graph.Wiring
import TensorLowering.Image.Program
import TensorLowering.Proofs.Attempt
import TensorLowering.Proofs.Changes
import TensorLowering.Proofs.Compilation
import TensorLowering.Proofs.Emission
import TensorLowering.Proofs.Settlement
import TensorLowering.Proofs.SharedMemory
import TensorLowering.Proofs.Elements
import TensorLowering.Proofs.Integrity
import TensorLowering.Proofs.FinalCheck
import TensorLowering.Proofs.Fitting
import TensorLowering.Proofs.Outcome
import TensorLowering.Proofs.Ieee
import TensorLowering.Proofs.Chains
import TensorLowering.Proofs.Scaling
import TensorLowering.Proofs.Propagation
import TensorLowering.Proofs.ScaleFactors
import TensorLowering.Proofs.CopyBurst
import TensorLowering.Proofs.Reports
import TensorLowering.Proofs.Rearrangement
import TensorLowering.Proofs.RecordOrder
import TensorLowering.Proofs.ScaleTransfer
import TensorLowering.Proofs.Determinacy
import TensorLowering.Proofs.LowersTo
import TensorLowering.Proofs.InsertionOrder
import TensorLowering.Proofs.Recompilation
import TensorLowering.Proofs.LeastSchedule
import TensorLowering.Proofs.LeastLayout
import TensorLowering.Proofs.CopyModes
import TensorLowering.Proofs.OrderChains
import TensorLowering.Proofs.StrideQuery
import TensorLowering.Proofs.Runs
import TensorLowering.Proofs.DemandLog
import TensorLowering.Proofs.Tightening
import TensorLowering.Proofs.Validation
import TensorLowering.Proofs.Transactions
import TensorLowering.Proofs.Histories
import TensorLowering.Proofs.OrderCodecs
import TensorLowering.Proofs.Placement
import TensorLowering.Proofs.ReadBack
