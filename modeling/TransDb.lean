import TransDb.Core.Machine
import TransDb.Core.Program
import TransDb.Core.Stateful
import TransDb.Core.Quorum
import TransDb.Core.Replication
import TransDb.Core.ReplicationSteps
import TransDb.Core.ReplicationMoves
import TransDb.Core.Bytes
import TransDb.Core.Framing
import TransDb.Core.Crc32
import TransDb.Core.Sealed
import TransDb.Core.Faults
import TransDb.Core.SortedMap
import TransDb.Core.InnerJoin
import TransDb.Core.Text
import TransDb.Raft.Log
import TransDb.Raft.Node
import TransDb.Raft.Votes
import TransDb.Raft.Cluster
import TransDb.Raft.NodeRefinement
import TransDb.Raft.AppendRefinement
import TransDb.Raft.Safety
import TransDb.Raft.LogFile
import TransDb.Raft.DurableNode
import TransDb.Raft.Mirror
import TransDb.Raft.DurableCluster
import TransDb.Storage.MvccStore
import TransDb.Storage.Exact
import TransDb.Storage.Calls
import TransDb.Txn.Wal
import TransDb.Txn.WalFile
import TransDb.Txn.LockManager
import TransDb.Txn.LockRuns
import TransDb.Txn.Manager
import TransDb.Txn.GroupCommit
import TransDb.Txn.LifeCycle
import TransDb.Txn.Operations
import TransDb.Txn.Applied
import TransDb.Txn.Threads
import TransDb.Txn.Recover
import TransDb.Txn.LockSafety
import TransDb.Txn.CrashSafety
import TransDb.Txn.PreparedLocks
import TransDb.Txn.Clients
import TransDb.Txn.Sessions
import TransDb.Txn.FoundReads
import TransDb.Txn.Reads
import TransDb.Txn.Alone
import TransDb.Txn.OwnView
import TransDb.Txn.Validation
import TransDb.Txn.Serializability
import TransDb.Txn.Snapshots
import TransDb.Txn.Phantoms
import TransDb.Txn.LockPeriods
import TransDb.Raft.StateMachine
import TransDb.Raft.ReplicaSim
import TransDb.Raft.Replay
import TransDb.Raft.Agreement
import TransDb.Raft.Following
import TransDb.Raft.Segments
import TransDb.Raft.Sequential
import TransDb.Shard.Server
import TransDb.Shard.Handlers
import TransDb.Shard.Served
import TransDb.Shard.Ownership
import TransDb.Shard.Sequenced
import TransDb.Shard.Stages
import TransDb.Shard.Promise
import TransDb.Shard.Convergence
import TransDb.Coordinator.Coordinator
import TransDb.Coordinator.FastPath
import TransDb.Coordinator.Cluster
import TransDb.Coordinator.LogFile
import TransDb.Coordinator.Discipline
import TransDb.Coordinator.Recovery
import TransDb.Coordinator.Ledger
import TransDb.Coordinator.Decisions
import TransDb.Coordinator.Atomicity
import TransDb.Coordinator.Timestamps
import TransDb.Sql.Ast
import TransDb.Sql.Tokenizer
import TransDb.Sql.Parser
import TransDb.Sql.Rows
import TransDb.Sql.KeyRange
import TransDb.Sql.Join
import TransDb.Sql.Executor
import TransDb.Sql.Turns
import TransDb.Sql.Database
import TransDb.Sql.JoinAgreement
import TransDb.Sql.Updates
import TransDb.Pgwire.Messages
import TransDb.Pgwire.Params
import TransDb.Pgwire.Templates
import TransDb.Pgwire.Session
import TransDb.Pgwire.Steps
import TransDb.Pgwire.Portals
import TransDb.Pgwire.Errors
import TransDb.Pgwire.Startup
