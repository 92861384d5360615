import KvStorage.Lib.Rename
import KvStorage.Lib.Chain
import KvStorage.Lib.Run
import KvStorage.Lib.Exit
import KvStorage.Lib.Majority
import KvStorage.Lib.Replication
import KvStorage.Lib.ReplicationStep
import KvStorage.Lib.Wire
import KvStorage.RpcProvider
import KvStorage.MprpcChannel
import KvStorage.MprpcThreads
import KvStorage.TimerManager
import KvStorage.SkipList
import KvStorage.SkipListShape
import KvStorage.SkipListUpdate
import KvStorage.SkipMap
import KvStorage.SkipListRuns
import KvStorage.KvServer
import KvStorage.StateMachine
import KvStorage.ExactlyOnce
import KvStorage.Cluster
import KvStorage.RaftSpec
import KvStorage.ClusterSpec
import KvStorage.RaftVote
import KvStorage.RaftLog
import KvStorage.NodeRefinement
import KvStorage.AdoptRefinement
import KvStorage.ClusterRefinement
import KvStorage.ClusterSimulation
import KvStorage.ClusterSafety
import KvStorage.RaftStep
import KvStorage.RaftDurability
import KvStorage.ApplyChannel
import KvStorage.PersisterFiles
import KvStorage.ClusterRound
import KvStorage.ClusterElection
import KvStorage.ElectionSafety
import KvStorage.LogIndexes
import KvStorage.LeaderIndexes
import KvStorage.LogRange
import KvStorage.Lib.Word
import KvStorage.StoredIndexes
import KvStorage.ClusterMoves
import KvStorage.ClusterAppends
import KvStorage.CommitSoundness
import KvStorage.LeaderProgress
import KvStorage.LogTerms
import KvStorage.CommitPaths
import KvStorage.LogCompaction
import KvStorage.LogMerge
import KvStorage.Lib.LogMatching
import KvStorage.LateAppends
import KvStorage.NextIndexBackoff
import KvStorage.RequestCodec
import KvStorage.SkipListDumps
import KvStorage.Lib.OrderedSet
import KvStorage.TimerHeap
import KvStorage.TimerLife
import KvStorage.Lib.Tally
import KvStorage.IOManager
import KvStorage.IOManagerEvents
import KvStorage.FiberScheduler
import KvStorage.FiberWakeups
import KvStorage.IdleTimeout
import KvStorage.FdManager
import KvStorage.Hook
import KvStorage.HookNonblock
import KvStorage.HookTimeouts
import KvStorage.EventContexts
import KvStorage.SchedulerStop
import KvStorage.SnapshotStream
import KvStorage.RequestHandlers
import KvStorage.AcknowledgedRequests
import KvStorage.DedupeTable
import KvStorage.Lib.Linearizability
import KvStorage.Clerk
import KvStorage.KvSystem
import KvStorage.KvSystemOrder
import KvStorage.KvSystemHistory
import KvStorage.KvSystemReads
import KvStorage.KvSystemLinearizable
import KvStorage.Lib.Message
import KvStorage.RpcMessages
import KvStorage.RpcServices
import KvStorage.MrpcConfig
import KvStorage.ClusterCommits
import KvStorage.ClusterCommands
import KvStorage.ClusterSnapshots
import KvStorage.ChannelContents
import KvStorage.KvCluster
import KvStorage.KvClusterBacking
import KvStorage.KvClusterRefinement
import KvStorage.KvClusterLinearizable
