import DpuOffload.Lib.Bitset
import DpuOffload.Lib.Counting
import DpuOffload.Lib.Transition
import DpuOffload.Lib.Extent
import DpuOffload.Lib.Placement
import DpuOffload.Lib.Rank
import DpuOffload.Lib.DynArray
import DpuOffload.Lib.Strtok
import DpuOffload.Lib.Bytes
import DpuOffload.Lib.BitFields
import DpuOffload.Lib.Pool
import DpuOffload.Lib.Gather
import DpuOffload.Lib.Intervals
import DpuOffload.Lib.Runs
import DpuOffload.Pools.DynArray
import DpuOffload.Pools.DynList
import DpuOffload.Cache.Types
import DpuOffload.Cache.Topology
import DpuOffload.Cache.GroupCache
import DpuOffload.Cache.Exchange
import DpuOffload.Cache.Revoke
import DpuOffload.Cache.Connect
import DpuOffload.Cache.TopologyCounts
import DpuOffload.Cache.TopologyRecords
import DpuOffload.Cache.TopologyTables
import DpuOffload.Cache.Received
import DpuOffload.Cache.HostCounts
import DpuOffload.Cache.BitsetBounds
import DpuOffload.Cache.Memory
import DpuOffload.Cache.Pointers
import DpuOffload.Cache.Ownership
import DpuOffload.Cache.OwnedRuns
import DpuOffload.Cache.Release
import DpuOffload.Cache.WholeRevoke
import DpuOffload.Bootstrap.Conn
import DpuOffload.Bootstrap.Client
import DpuOffload.Bootstrap.Server
import DpuOffload.Bootstrap.FanOut
import DpuOffload.Bootstrap.Clients
import DpuOffload.Bootstrap.Slots
import DpuOffload.Protocol.Engine
import DpuOffload.Protocol.Actions
import DpuOffload.Protocol.Stranded
import DpuOffload.Protocol.Site
import DpuOffload.Protocol.Store
import DpuOffload.Protocol.Room
import DpuOffload.Protocol.RevokeActs
import DpuOffload.Protocol.HeldBack
import DpuOffload.Protocol.Accounting
import DpuOffload.Protocol.LocalRevokes
import DpuOffload.Protocol.RevokeChunks
import DpuOffload.Protocol.Broadcast
import DpuOffload.Protocol.EntryCounts
import DpuOffload.Protocol.CacheSends
import DpuOffload.Protocol.Freshness
import DpuOffload.Protocol.Net
import DpuOffload.Protocol.Messages
import DpuOffload.Protocol.LocalSends
import DpuOffload.Protocol.Agreement
import DpuOffload.Protocol.Versions
import DpuOffload.Protocol.VersionActs
import DpuOffload.Protocol.VersionSp
import DpuOffload.Protocol.VersionRuns
import DpuOffload.Protocol.Gathering
import DpuOffload.Protocol.Lossless
import DpuOffload.Protocol.LosslessActs
import DpuOffload.Protocol.LosslessRuns
import DpuOffload.Protocol.AtRest
import DpuOffload.Getters.Queries
import DpuOffload.Getters.SameSp
import DpuOffload.Getters.Roster
import DpuOffload.Getters.Seated
import DpuOffload.Getters.Complete
import DpuOffload.Getters.SpIds
import DpuOffload.Getters.Compose
import DpuOffload.Getters.RankIds
import DpuOffload.Getters.LocalSps
import DpuOffload.Getters.Lists
import DpuOffload.Buffers.Smart
import DpuOffload.Buffers.Packing
import DpuOffload.Buffers.Buckets
import DpuOffload.Events.Notifications
import DpuOffload.Events.Delivery
import DpuOffload.Events.System
import DpuOffload.Events.Lifecycle
import DpuOffload.Events.PostedSends
import DpuOffload.Events.MetaEvents
import DpuOffload.Events.PendingPool
import DpuOffload.Events.Rendezvous
import DpuOffload.Ops.ActiveOps
import DpuOffload.Ids.Tags
import DpuOffload.Ids.GroupKey
import DpuOffload.Ids.Hash
import DpuOffload.Mesh.Lookup
import DpuOffload.Mesh.Identity
import DpuOffload.Mesh.Routing
import DpuOffload.Mesh.EngineEnd
import DpuOffload.Mesh.Termination
import DpuOffload.Mesh.HostServer
import DpuOffload.Mesh.SpData
import DpuOffload.Config.Data
import DpuOffload.Config.ListDpus
import DpuOffload.Config.FullMesh
import DpuOffload.Config.PlatformFile
import DpuOffload.Config.Tables
import DpuOffload.Config.FileOrder
import DpuOffload.Config.FileFrame
import DpuOffload.Config.HostTable
import DpuOffload.Config.HostLines
import DpuOffload.Config.HostOnce
import DpuOffload.Config.HostOrder
import DpuOffload.Config.PerDpu
import DpuOffload.Config.MachineNames
import DpuOffload.Config.DpuEntry
import DpuOffload.Config.HostRecord
import DpuOffload.Config.ConnectingRanks
