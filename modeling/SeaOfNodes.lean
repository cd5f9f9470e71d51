import SeaOfNodes.Access.Edges
import SeaOfNodes.Graph.Render
import SeaOfNodes.Lowering.Pass
import SeaOfNodes.Proofs.Graph.Consistency
import SeaOfNodes.Proofs.Graph.Refusal
import SeaOfNodes.Proofs.Lowering.Confluence
import SeaOfNodes.Proofs.Lowering.ControlSplice
import SeaOfNodes.Proofs.Lowering.MemoryOrder
import SeaOfNodes.Proofs.Lowering.MemoryEffect
import SeaOfNodes.Proofs.Lowering.Rewiring
import SeaOfNodes.Proofs.Lowering.History
import SeaOfNodes.Proofs.Access.TargetLowering
import SeaOfNodes.Proofs.Location.Interning
import SeaOfNodes.Proofs.Memory.KeptOrder
import SeaOfNodes.Proofs.Lowering.References
import SeaOfNodes.Proofs.Lowering.Widths
import SeaOfNodes.Proofs.Lowering.BarrierOrder
import SeaOfNodes.Proofs.Memory.FieldOrder
import SeaOfNodes.Proofs.Memory.JoinLaws
import SeaOfNodes.Proofs.Lowering.ControlOrder
import SeaOfNodes.Proofs.Graph.BulkEdits
import SeaOfNodes.Proofs.Graph.Undoing
import SeaOfNodes.Proofs.Access.Swaps
import SeaOfNodes.Proofs.Graph.Intake
import SeaOfNodes.Proofs.Access.LoadTypes
import SeaOfNodes.Proofs.Access.ReadsAndWrites
import SeaOfNodes.Proofs.Lowering.Stopping
import SeaOfNodes.Proofs.Access.OptionalEdges
import SeaOfNodes.Proofs.Graph.ControlTree
import SeaOfNodes.Proofs.Graph.Enumeration
import SeaOfNodes.Proofs.Storage.Members
