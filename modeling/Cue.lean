import Cue.Lib.FinMap
import Cue.Lib.Machine
import Cue.Lib.Run
import Cue.Lib.SwapRemove
import Cue.Lib.Threads
import Cue.Lib.Origin
import Cue.Lib.Dealing
import Cue.Lib.Rows
import Cue.Lib.FanOut
import Cue.Model.Command
import Cue.State.JobStore
import Cue.State.ProcessQueue
import Cue.State.ProxyMap
import Cue.State.DLQBuffer
import Cue.State.Partition
import Cue.JobStoreProofs
import Cue.ProcessQueueProofs
import Cue.PartitionProofs
import Cue.JobAccounting
import Cue.SlotOwnership
import Cue.BatchAdmission
import Cue.ReplicaAgreement
import Cue.Cluster.RaftSegment
import Cue.Cluster.RaftStorage
import Cue.WalRecords
import Cue.WalLayout
import Cue.WalProofs
import Cue.WalReopen
import Cue.JobIndexProofs
import Cue.StorageProofs
import Cue.StorageWal
import Cue.JobIndexHistory
import Cue.StorageRuns
import Cue.Cluster.EntryCodec
import Cue.Compaction
import Cue.Cluster.RaftNode
import Cue.PersistBeforeSend
import Cue.Cluster.Agent
import Cue.CommitDelivery
import Cue.ProposalRecords
import Cue.PartitionReplay
import Cue.CommandReplay
import Cue.TopicIsolation
import Cue.WalFidelity
import Cue.StorageReopen
import Cue.IndexRebuild
import Cue.PendingAgreement
import Cue.DeadJobFilter
import Cue.DoneFinality
import Cue.RetrySpacing
import Cue.DeadLetterOnce
import Cue.DoneReclaim
import Cue.Proxy.Gateway
import Cue.Proxy.Outbound
import Cue.RequestSafety
import Cue.StorageRestart
import Cue.ConcurrentFlush
import Cue.RoleFollowing
import Cue.State.TopicManager
import Cue.State.Lifecycle
import Cue.TopologyConvergence
import Cue.Proxy.Registry
import Cue.ReconnectRace
import Cue.Lib.Slices
import Cue.Cluster.DLQFile
import Cue.DeadLetterFile
import Cue.CommandRouting
import Cue.AnswerCount
import Cue.Cmd.Serve
import Cue.TopicSurvival
import Cue.WalAnyOrder
import Cue.TornTail
import Cue.CommandRoundTrip
import Cue.Cluster.PeerModel
import Cue.PeerRoundTrip
import Cue.Cluster.ServiceDiscovery
import Cue.DiscoveryConsistency
import Cue.DiscoveryRaces
import Cue.Cluster.Ingress
import Cue.PeerAnswers
import Cue.AuthenticatedPeers
import Cue.ConflictingAppend
import Cue.CompactionTerms
import Cue.BatchCleaning
import Cue.DeadLetterFlush
import Cue.EntrySizes
import Cue.SnapshotInstall
import Cue.Lib.Loop
import Cue.WalScanTermination
import Cue.RecoverySafety
import Cue.WalPosition
import Cue.ReadBatchOrder
import Cue.BatchIntake
import Cue.EmptyJobID
import Cue.NoStarvation
import Cue.Cluster.SegmentFaults
import Cue.AppendRetry
import Cue.JobStoreMap
import Cue.QueueCells
import Cue.RecordCodec
import Cue.ProxyMapProofs
import Cue.RoundRobin
import Cue.Backoff
import Cue.BatchSize
import Cue.StorageReads
import Cue.Cluster.StorageLock
import Cue.LockRelease
import Cue.Cluster.DLQRotation
import Cue.RotationLoss
import Cue.SnapshotGap
import Cue.CompactionPace
import Cue.ProxyAvailability
import Cue.DeliveryOrigin
import Cue.OutboundDelivery
import Cue.TopicLifecycle
import Cue.CommandHandover
import Cue.Api.AdminAPI
import Cue.AdminAuthorization
import Cue.BroadcastResults
