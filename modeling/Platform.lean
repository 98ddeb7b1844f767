import Platform.Consensus.Votes
import Platform.Consensus.Delivery
import Platform.Consensus.Agreement
import Platform.Consensus.Genuine
import Platform.Consensus.Content
import Platform.Network.Replay
import Platform.Network.RateLimit
import Platform.Node.Events
import Platform.State.Weights
import Platform.State.Evaluations
import Platform.Chain.Message
import Platform.Storage.Versions
import Platform.Storage.Binding
import Platform.Storage.Quorum
import Platform.Epoch.Finalization
import Platform.Epoch.Divergence
import Platform.Epoch.CommitManager
import Platform.Epoch.Manager
import Platform.Subnet.Freshness
import Platform.Bittensor.Retry
import Platform.Bittensor.Restart
import Platform.Distributed.Root
import Platform.Distributed.Rules
import Platform.Distributed.Votes
import Platform.Distributed.Creators
import Platform.Dynamic.Formats
import Platform.Dynamic.Scan
import Platform.Dynamic.CachedTree
import Platform.Container.Mounts
import Platform.Container.Quotas
import Platform.Container.Connections
import Platform.Rpc.Jobs
import Platform.Subnet.Repeats
import Platform.Consensus.Rotation
import Platform.Consensus.Survival
import Platform.Network.Peers
import Platform.Network.SlidingWindow
import Platform.State.MerkleProof
import Platform.Storage.Averages
import Platform.Storage.Narrowing
import Platform.Storage.Nearest
import Platform.Epoch.Mechanism
import Platform.Container.Limits
import Platform.Sdk.Runner
import Platform.Sdk.Routes
