import MiniCache.BinaryHeap
import MiniCache.OrderedDict
import MiniCache.ExpiringMap
import MiniCache.ExpiringCopies
import MiniCache.RecordLog
import MiniCache.PythonText
import MiniCache.Protocol
import MiniCache.ProtocolRoundTrip
import MiniCache.ProtocolFrames
import MiniCache.ReplyRoundTrip
import MiniCache.Store
import MiniCache.StoreInvariant
import MiniCache.StoreLive
import MiniCache.StoreRefinement
import MiniCache.Recency
import MiniCache.StoreMemory
import MiniCache.ExpiryRecords
import MiniCache.LruCache
import MiniCache.StoreCache
import MiniCache.StoreEviction
import MiniCache.Commands
import MiniCache.CommandEffects
import MiniCache.CommandOutcome
import MiniCache.CommandErrors
import MiniCache.SetGrammar
import MiniCache.Counters
import MiniCache.CommandCalls
import MiniCache.CommandCache
import MiniCache.ClockReadings
import MiniCache.AtomicCommands
import MiniCache.ReplyFrames
import MiniCache.Aof
import MiniCache.AofRepair
import MiniCache.Replication
import MiniCache.Server
import MiniCache.ServerTurns
import MiniCache.ServerWriteGate
import MiniCache.CommandForms
import MiniCache.CommandAnswers
import MiniCache.ExpiringFrames
import MiniCache.Isolation
import MiniCache.CommandLocality
import MiniCache.LoggedForms
import MiniCache.CopiedEvictions
import MiniCache.FailedAppends
import MiniCache.EvictionMirror
import MiniCache.AofRecords
import MiniCache.PrimaryRuns
import MiniCache.AofDurability
import MiniCache.AofCrash
import MiniCache.AofTasks
import MiniCache.AofTaskInvariants
import MiniCache.AofRewrite
import MiniCache.GroupCommit
import MiniCache.DirtyFlag
import MiniCache.StoreDeadlines
import MiniCache.RewriteReplay
import MiniCache.CrashRecovery
import MiniCache.ReplicaStream
import MiniCache.ReplicaSnapshot
import MiniCache.ReplicationConvergence
import MiniCache.ReplicaLinks
import MiniCache.ReplicaHandover
import MiniCache.ReplicaBacklog
import MiniCache.AuthGate
import MiniCache.HashRing
import MiniCache.RingMembers
import MiniCache.RingDisruption
import MiniCache.ScatterGather
import MiniCache.ClusterLinks
import MiniCache.ClusterClient
import MiniCache.ClusterBatches
import MiniCache.ClusterMaps
import MiniCache.DeletePattern
import MiniCache.ClusterCalls
import MiniCache.ClusterServers
import MiniCache.RingOwners
import MiniCache.ClusterStore
import MiniCache.ClusterScatters
import MiniCache.ClusterLists
import MiniCache.ClusterRuns
import MiniCache.LeasePool
import MiniCache.ConnectionPool
import MiniCache.PoolReplies
import MiniCache.PoolRetries
import MiniCache.ClientClose
import MiniCache.StreamPrograms
import MiniCache.ServerConnections
import MiniCache.ConnectionReads
import MiniCache.ConnectionStreams
import MiniCache.ConnectionCounts
