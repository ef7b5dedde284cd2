import PecsRegistry.Directory.Backoff
import PecsRegistry.Directory.CancelSafety
import PecsRegistry.Directory.DiskIsolation
import PecsRegistry.Directory.DiskWrites
import PecsRegistry.Directory.Fallible
import PecsRegistry.Directory.FirstLoad
import PecsRegistry.Directory.Following
import PecsRegistry.Directory.Inventory
import PecsRegistry.Directory.Listeners
import PecsRegistry.Directory.Moves
import PecsRegistry.Directory.Outage
import PecsRegistry.Directory.Persistence
import PecsRegistry.Directory.Polling
import PecsRegistry.Directory.Provenance
import PecsRegistry.Directory.Rcu
import PecsRegistry.Directory.Reconnect
import PecsRegistry.Directory.Restart
import PecsRegistry.Directory.Retirement
import PecsRegistry.Directory.Rollback
import PecsRegistry.Directory.SelfHealing
import PecsRegistry.Directory.Snapshot
import PecsRegistry.Directory.System
import PecsRegistry.Directory.Watchers
import PecsRegistry.Discover.Binding
import PecsRegistry.Discover.Tonic
import PecsRegistry.Discover.Tower
import PecsRegistry.Foundations.EndpointViews
import PecsRegistry.Foundations.Instance
import PecsRegistry.Foundations.InstanceJson
import PecsRegistry.Foundations.Numeric
import PecsRegistry.Machinery.Aliases
import PecsRegistry.Machinery.Apportionment
import PecsRegistry.Machinery.Bypass
import PecsRegistry.Machinery.Census
import PecsRegistry.Machinery.Channel
import PecsRegistry.Machinery.Circle
import PecsRegistry.Machinery.Contest
import PecsRegistry.Machinery.DoubleChecked
import PecsRegistry.Machinery.Files
import PecsRegistry.Machinery.Follower
import PecsRegistry.Machinery.Json
import PecsRegistry.Machinery.LeaseOps
import PecsRegistry.Machinery.LeaseStore
import PecsRegistry.Machinery.OrderedPairs
import PecsRegistry.Machinery.Paths
import PecsRegistry.Machinery.Rcu
import PecsRegistry.Machinery.Residues
import PecsRegistry.Machinery.Rotation
import PecsRegistry.Machinery.Transition
import PecsRegistry.Machinery.Volume
import PecsRegistry.Machinery.Writes
import PecsRegistry.Provider.Chronicle
import PecsRegistry.Provider.Etcd.Cluster
import PecsRegistry.Provider.Etcd.Config
import PecsRegistry.Provider.Etcd.Deregister
import PecsRegistry.Provider.Etcd.Endpoints
import PecsRegistry.Provider.Etcd.Fleet
import PecsRegistry.Provider.Etcd.Forwarding
import PecsRegistry.Provider.Etcd.Freight
import PecsRegistry.Provider.Etcd.Ghosts
import PecsRegistry.Provider.Etcd.Hub
import PecsRegistry.Provider.Etcd.LatestWins
import PecsRegistry.Provider.Etcd.LeaseLoss
import PecsRegistry.Provider.Etcd.Listing
import PecsRegistry.Provider.Etcd.Moves
import PecsRegistry.Provider.Etcd.Retry
import PecsRegistry.Provider.Etcd.Rounds
import PecsRegistry.Provider.Etcd.System
import PecsRegistry.Provider.Etcd.Tenants
import PecsRegistry.Provider.Etcd.Usurping
import PecsRegistry.Provider.Etcd.WatchEvents
import PecsRegistry.Provider.Feed
import PecsRegistry.Provider.Local
import PecsRegistry.Provider.Local.Calls
import PecsRegistry.Provider.Local.Lag
import PecsRegistry.Provider.Local.Observing
import PecsRegistry.Provider.Local.Ordering
import PecsRegistry.Provider.Local.Undo
import PecsRegistry.Provider.Local.Updates
import PecsRegistry.Provider.Nacos
import PecsRegistry.Provider.Nacos.Client
import PecsRegistry.Provider.Nacos.Fleet
import PecsRegistry.Provider.Nacos.Registration
import PecsRegistry.Selector.Canary
import PecsRegistry.Selector.Churn
import PecsRegistry.Selector.ConsistentHash
import PecsRegistry.Selector.Context
import PecsRegistry.Selector.DeclaredWeights
import PecsRegistry.Selector.Draws
import PecsRegistry.Selector.GuardShares
import PecsRegistry.Selector.Inflight
import PecsRegistry.Selector.Isolation
import PecsRegistry.Selector.Overflow
import PecsRegistry.Selector.P2C
import PecsRegistry.Selector.RingThreads
import PecsRegistry.Selector.RoundRobin
import PecsRegistry.Selector.RoundRobinThreads
import PecsRegistry.Selector.Scaling
import PecsRegistry.Selector.Successor
import PecsRegistry.Selector.TagIsolation
import PecsRegistry.Selector.TagRotation
import PecsRegistry.Selector.Weighted
import PecsRegistry.Service.Agreement
import PecsRegistry.Service.Local
import PecsRegistry.Service.Registered
import PecsRegistry.Service.Representation
import PecsRegistry.Service.Resurrection
import PecsRegistry.Service.Settings
import PecsRegistry.Service.System
import PecsRegistry.Service.Traffic
