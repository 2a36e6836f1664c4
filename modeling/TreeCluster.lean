import TreeCluster.Config.Json
import TreeCluster.Host.Calls
import TreeCluster.Json.Formats
import TreeCluster.Looper.Script
import TreeCluster.Proofs.Address.Composition
import TreeCluster.Proofs.Address.Grammar
import TreeCluster.Proofs.Address.Leaders
import TreeCluster.Proofs.Address.Spelling
import TreeCluster.Proofs.Address.Vacant
import TreeCluster.Proofs.Config.Restored
import TreeCluster.Proofs.Tree.Recorded
import TreeCluster.Proofs.Tree.Rebuilt
import TreeCluster.Proofs.Tree.Reproducible
import TreeCluster.Proofs.Tree.Paths
import TreeCluster.Proofs.Tree.Siblings
import TreeCluster.Proofs.Tree.Balanced
import TreeCluster.Proofs.Tree.Relabelled
import TreeCluster.Proofs.Tree.Rejoined
import TreeCluster.Proofs.Transport.InOrder
import TreeCluster.Proofs.Transport.Dialling
import TreeCluster.Proofs.Wire.Incomplete
import TreeCluster.Proofs.Wire.Canonical
import TreeCluster.Proofs.Wire.Resumption
import TreeCluster.Proofs.Json.Recovered
import TreeCluster.Proofs.Command.Typed
import TreeCluster.Proofs.Transport.Teardown
import TreeCluster.Proofs.Transport.Retrying
import TreeCluster.Proofs.Transport.Subscription
import TreeCluster.Proofs.Transport.LocalOnly
import TreeCluster.Proofs.Transport.Drained
import TreeCluster.Proofs.Node.Aligned
import TreeCluster.Proofs.Looper.Dispatch
import TreeCluster.Proofs.Looper.Silence
import TreeCluster.Proofs.Looper.Feedback
import TreeCluster.Proofs.Looper.Success
