import CallFlow.Main
import CallFlow.Proofs.Analysis.Arguments
import CallFlow.Proofs.Analysis.Callbacks
import CallFlow.Proofs.Analysis.Contraction
import CallFlow.Proofs.Analysis.EdgeKinds
import CallFlow.Proofs.Analysis.Heads
import CallFlow.Proofs.Analysis.Isolation
import CallFlow.Proofs.Analysis.Mark
import CallFlow.Proofs.Analysis.Monotone
import CallFlow.Proofs.Analysis.Natives
import CallFlow.Proofs.Analysis.Order
import CallFlow.Proofs.Analysis.Reexports
import CallFlow.Proofs.Analysis.Results
import CallFlow.Proofs.Analysis.Scoping
import CallFlow.Proofs.Analysis.WellFormed
import CallFlow.Proofs.Analysis.Wrapping
import CallFlow.Proofs.Binding.Structure
import CallFlow.Proofs.Config.Search
import CallFlow.Proofs.Discovery.Files
import CallFlow.Proofs.FileFlow.ClassBodies
import CallFlow.Proofs.FileFlow.Isolation
import CallFlow.Proofs.Flow.Condensation
import CallFlow.Proofs.Flow.Representation
import CallFlow.Proofs.Module.Exactness
import CallFlow.Proofs.Path.Normal
import CallFlow.Proofs.Propagation.Simultaneous
import CallFlow.Proofs.Registration.PassedOver
import CallFlow.Proofs.Report.Edges
import CallFlow.Proofs.Source.Position
