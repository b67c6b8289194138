import Workflow.Files.Tree
import Workflow.Main
import Workflow.Proofs.Definition.Codec
import Workflow.Proofs.Engine.Capacity
import Workflow.Proofs.Engine.Delay
import Workflow.Proofs.Engine.Ending
import Workflow.Proofs.Engine.Refusal
import Workflow.Proofs.Engine.Worlds
import Workflow.Proofs.Expr.Bytes
import Workflow.Proofs.Expr.Confinement
import Workflow.Proofs.Expr.Depth
import Workflow.Proofs.Expr.Layout
import Workflow.Proofs.Expr.Methods
import Workflow.Proofs.Expr.Recognition
import Workflow.Proofs.Expr.Rendering
import Workflow.Proofs.Graph.ExecutionOrder
import Workflow.Proofs.Graph.Guards
import Workflow.Proofs.Run.Attempts
import Workflow.Proofs.Run.Bookkeeping
import Workflow.Proofs.Run.Branch
import Workflow.Proofs.Run.Clean
import Workflow.Proofs.Run.Deadlock
import Workflow.Proofs.Run.Frontier
import Workflow.Proofs.Run.Mapping
import Workflow.Proofs.Run.Order
import Workflow.Proofs.Run.Pause
import Workflow.Proofs.Run.Requests
import Workflow.Proofs.Run.Rounds
import Workflow.Proofs.Run.Settling
import Workflow.Proofs.Run.Strict
import Workflow.Proofs.Store.Refinement
