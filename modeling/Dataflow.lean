import Dataflow.Circuit.Invoke
import Dataflow.Circuit.Transform
import Dataflow.Json.Plans
import Dataflow.Merge.Stock
import Dataflow.Node.Stock
import Dataflow.Text.Outline
import Dataflow.Workflow
import Dataflow.Proofs.GuardElision
import Dataflow.Proofs.Shape
import Dataflow.Proofs.Conservation
import Dataflow.Proofs.Soundness
import Dataflow.Proofs.Readers
import Dataflow.Proofs.SingleFed
import Dataflow.Proofs.Chains
import Dataflow.Proofs.Selection
import Dataflow.Proofs.Demand
import Dataflow.Proofs.Registries
import Dataflow.Proofs.Gathering
import Dataflow.Proofs.Failures
import Dataflow.Proofs.Operations
import Dataflow.Proofs.Verdicts
import Dataflow.Proofs.MergeChecks
import Dataflow.Proofs.Rearranging
import Dataflow.Proofs.Reordering
import Dataflow.Proofs.Guarding
import Dataflow.Proofs.Parts
import Dataflow.Proofs.Formed
import Dataflow.Proofs.Lenses
import Dataflow.Proofs.RoundTrips
import Dataflow.Proofs.ZeroValues
import Dataflow.Proofs.LegalMappings
import Dataflow.Proofs.Contributions
import Dataflow.Proofs.Fitting
import Dataflow.Proofs.Unions
import Dataflow.Proofs.Policies
import Dataflow.Proofs.Converters
import Dataflow.Proofs.Arenas
import Dataflow.Proofs.Boards
import Dataflow.Proofs.Refusals
import Dataflow.Proofs.DrawnEdges
import Dataflow.Proofs.FailureKinds
import Dataflow.Proofs.Documents
import Dataflow.Proofs.RecordTypes
