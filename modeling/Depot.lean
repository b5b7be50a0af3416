import Depot.Main
import Depot.Proofs.Closing.Release
import Depot.Proofs.CommandLine.Listing
import Depot.Proofs.CommandLine.Routes
import Depot.Proofs.Config
import Depot.Proofs.Location.Rendering
import Depot.Proofs.Location.Stages
import Depot.Proofs.Path.Collapse
import Depot.Proofs.Reader
import Depot.Proofs.Store.Confinement
import Depot.Proofs.Store.Destinations
import Depot.Proofs.Store.Errors
import Depot.Proofs.Store.Fences
import Depot.Proofs.Store.FullScan
import Depot.Proofs.Store.Lifetimes
import Depot.Proofs.Store.Providers
import Depot.Proofs.Store.Pushes
import Depot.Proofs.Store.Refinement
import Depot.Proofs.Store.Resuming
import Depot.Proofs.Store.Visibility
import Depot.Proofs.Tracing.Attributes
import Depot.Proofs.Tracing.Setup
import Depot.Proofs.Tracing.Spelling
import Depot.Proofs.Tracing.Transparency
import Depot.Proofs.Transfer.Course
