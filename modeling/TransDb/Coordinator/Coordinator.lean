import TransDb.Core.Program
import TransDb.Shard.Server

/-!
# The coordinator

The model of `Coordinator` (`src/coordinator/coordinator.cpp`): its operations and
`Recover`, as programs that write the coordinator log, draw timestamps, start futures and
call shards.

* `CoordinatorLogRecord`, `TxnRecoveryState` — the log and what `Recover` reads in it.
* `Request` — what the code asks of its surroundings.
* `prepareOnShard`, `commitOnShard`, `abortOnShard`, … — calls with their retries.
* `singleShardCommit`, `twoPhaseCommit`, `commit`, `abort` — the ends of a transaction.
* `recover` — the constructor's way through the log.
-/

namespace TransDb.Coordinator

open Storage Txn Raft Shard

abbrev ShardId := UInt32

/-! ## The log -/

/-- What a record says. -/
inductive CoordinatorLogRecordType where
  | preparing
  | committing
  | committed
  | aborting
  | aborted
  deriving DecidableEq

/-- A record of the log. -/
structure CoordinatorLogRecord where
  type : CoordinatorLogRecordType
  txnId : RaftTxnId
  shards : List ShardId
  deriving DecidableEq

/-- The records that were written, and how many of them are flushed. -/
structure CoordinatorLog where
  records : List CoordinatorLogRecord
  flushed : ℕ

/-- The records that a crash cannot lose. -/
def CoordinatorLog.durable (log : CoordinatorLog) : List CoordinatorLogRecord :=
  log.records.take log.flushed

/-- What `Recover` gathers about one transaction. -/
structure TxnRecoveryState where
  shards : List ShardId
  sawPreparing : Bool
  sawCommitting : Bool
  sawCommitted : Bool
  sawAborting : Bool
  sawAborted : Bool
  deriving DecidableEq

namespace TxnRecoveryState

/-- No record was seen. -/
def empty : TxnRecoveryState := ⟨[], false, false, false, false, false⟩

/-- One record of the transaction. -/
def see (st : TxnRecoveryState) (r : CoordinatorLogRecord) : TxnRecoveryState :=
  match r.type with
  | .preparing => { st with sawPreparing := true, shards := r.shards }
  | .committing => { st with sawCommitting := true }
  | .committed => { st with sawCommitted := true }
  | .aborting => { st with sawAborting := true }
  | .aborted => { st with sawAborted := true }

end TxnRecoveryState

/-- The entry of a transaction in `states`. -/
def recoveryState (records : List CoordinatorLogRecord) (T : RaftTxnId) : TxnRecoveryState :=
  (records.filter fun r => r.txnId = T).foldl TxnRecoveryState.see .empty

/-- The transactions of a log. -/
def recordedTxns (records : List CoordinatorLogRecord) : List RaftTxnId :=
  (records.map CoordinatorLogRecord.txnId).dedup

/-! ## Requests -/

/-- An entry of `txns_`. -/
structure CoordinatorTxn where
  snapshotTs : Timestamp
  participantShards : List ShardId
  aborted : Bool
  deriving DecidableEq

/-- What runs in a future. -/
inductive Job where
  | prepare (shard : ShardId) (raftTxnId : RaftTxnId) (commitTs : Timestamp)
  | commit (shard : ShardId) (raftTxnId : RaftTxnId) (commitTs : Timestamp)
  | abort (shard : ShardId) (raftTxnId : RaftTxnId)
  /-- The future of the client's `Abort`, which tries once. -/
  | abortOnce (shard : ShardId) (raftTxnId : RaftTxnId)
  | scan (shard : ShardId) (raftTxnId : RaftTxnId) (range : ScanRange)
  deriving DecidableEq

/-- What a call with its retries ends with: whether it succeeded, `vote_commit` of the last
response, and its status. -/
structure JobResult where
  ok : Bool
  voteCommit : Bool
  status : Status
  deriving DecidableEq

/-- What the code of the coordinator asks of its surroundings. -/
inductive Request where
  /-- `AppendCoordinatorRecordWrite` and `FlushCoordinatorLog`; both can fail. -/
  | append (r : CoordinatorLogRecord)
  | flush
  | replay
  /-- `ts_oracle_.Now()`. -/
  | now
  /-- `txns_`, under the mutex. -/
  | find (T : RaftTxnId)
  | erase (T : RaftTxnId)
  /-- `Abort` finds and erases at once. -/
  | take (T : RaftTxnId)
  | addParticipant (T : RaftTxnId) (shard : ShardId)
  /-- One call of a shard; there may be no answer. -/
  | call (shard : ShardId) (rpc : Rpc)
  | spawn (job : Job)
  | get (future : ℕ)
  /-- The destructors of the futures wait for them. -/
  | join
  /-- The order in which an unordered container is gone through. -/
  | orderShards (shards : List ShardId)
  | orderTxns (txns : List RaftTxnId)
  deriving DecidableEq

abbrev Request.Answer : Request → Type
  | .append _ => Bool
  | .flush => Bool
  | .replay => List CoordinatorLogRecord
  | .now => Timestamp
  | .find _ => Option CoordinatorTxn
  | .erase _ => Unit
  | .take _ => Option CoordinatorTxn
  | .addParticipant _ _ => Unit
  | .call _ _ => Option Response
  | .spawn _ => ℕ
  | .get _ => JobResult
  | .join => Unit
  | .orderShards _ => List ShardId
  | .orderTxns _ => List RaftTxnId

/-- Code of the coordinator. -/
abbrev Code := Program Request Request.Answer

/-- Make one request. -/
def perform (e : Request) : Code e.Answer := Program.request e

namespace Status

/-- A record was not written. -/
def writeFailed : Status := ⟨.ioError, "CoordinatorLog write failed"⟩

/-- The log was not flushed. -/
def flushFailed : Status := ⟨.ioError, "CoordinatorLog fsync failed"⟩

end Status

/-! ## Calls with retries -/

/-- `IsLeaderUnavailableMessage`. -/
def isLeaderUnavailableMessage (message : String) : Bool :=
  decide ("no raft leader".toList <:+: message.toList) ||
    decide ("no leader".toList <:+: message.toList)

/-- The addresses of the shards. -/
structure Config where
  numShards : ℕ
  stubs : ShardId → Bool
  /-- The number of replica addresses, 0 if there is no list of them. -/
  replicaStubs : ShardId → ℕ

namespace Config

/-- How often a call is made. -/
def attempts (cfg : Config) (shard : ShardId) : ℕ := max 1 (cfg.replicaStubs shard)

/-- `GetStub` finds a stub. -/
def hasStub (cfg : Config) (shard : ShardId) : Bool :=
  decide (0 < cfg.replicaStubs shard) || cfg.stubs shard

end Config

/-- The error message of a response; without an answer that of the call before stays. -/
def lastMessage (message : String) : Option Response → String
  | some (.prepare _ message) => message
  | some (.commit _ message) => message
  | _ => message

/-- `vote_commit` of a `PrepareResponse`, `ok` of a `CommitResponse`. -/
def isYes : Option Response → Bool
  | some (.prepare voteCommit _) => voteCommit
  | some (.commit ok _) => ok
  | _ => false

/-- The loop of `PrepareOnShard` and of `CommitOnShard`. -/
def untilYes (shard : ShardId) (rpc : Rpc) : ℕ → String → Code JobResult
  | 0, message => .ret ⟨false, false, ⟨.ioError, message⟩⟩
  | n + 1, message =>
    .ask (.call shard rpc) fun answer =>
      let message := lastMessage message answer
      if isYes answer then .ret ⟨true, true, ⟨.ok, message⟩⟩
      else if message ≠ "" ∧ isLeaderUnavailableMessage message = false then
        .ret ⟨false, false, ⟨.ioError, message⟩⟩
      else untilYes shard rpc n message

/-- The retries of a call. -/
def callUntilYes (cfg : Config) (shard : ShardId) (rpc : Rpc) : Code JobResult :=
  if cfg.hasStub shard then untilYes shard rpc (cfg.attempts shard) ""
  else .ret ⟨false, false, ⟨.ioError, ""⟩⟩

/-- `PrepareOnShard`. -/
def prepareOnShard (cfg : Config) (shard : ShardId) (T : RaftTxnId) (ts : Timestamp) :
    Code JobResult :=
  callUntilYes cfg shard (.prepare T ts)

/-- `CommitOnShard`. -/
def commitOnShard (cfg : Config) (shard : ShardId) (T : RaftTxnId) (ts : Timestamp) :
    Code JobResult :=
  callUntilYes cfg shard (.commit T ts)

/-- The loops that take any answer: `AbortOnShard` and `QueryTxnStateOnShard`. -/
def anyAnswer (shard : ShardId) (rpc : Rpc) : ℕ → Code (Option Response)
  | 0 => .ret none
  | n + 1 =>
    .ask (.call shard rpc) fun
      | some r => .ret (some r)
      | none => anyAnswer shard rpc n

/-- `AbortOnShard`. -/
def abortOnShard (cfg : Config) (shard : ShardId) (T : RaftTxnId) : Code JobResult :=
  if cfg.hasStub shard then do
    let answer ← anyAnswer shard (.abort T) (cfg.attempts shard)
    pure ⟨answer.isSome, false, .ok⟩
  else .ret ⟨false, false, .ok⟩

/-- `QueryShardTxnState`. -/
def queryShardTxnState (cfg : Config) (shard : ShardId) (T : RaftTxnId) : Code TxnStateCode :=
  if cfg.hasStub shard then do
    match ← anyAnswer shard (.queryTxnState T) (cfg.attempts shard) with
    | some (.txnState state) => pure state
    | _ => pure .unknown
  else .ret .unknown

/-- `kLeaderRetryAttempts`. -/
def leaderRetryAttempts : ℕ := 60

/-- The loop of `ExecuteWithLeaderRetry`. -/
def executeAttempts (shard : ShardId) (T : RaftTxnId) (op : ExecuteOp) : ℕ → Code Status
  | 0 => .ret ⟨.ioError, "no raft leader available on shard"⟩
  | n + 1 =>
    .ask (.call shard (.execute T op)) fun
      | some (.execute true _ _ _ _) => .ret .ok
      | some (.execute false code message _ _) =>
        if isLeaderUnavailableMessage message then executeAttempts shard T op n
        else .ret ⟨code, message⟩
      | _ => executeAttempts shard T op n

/-- `ExecuteWithLeaderRetry`. -/
def executeWithLeaderRetry (cfg : Config) (shard : ShardId) (T : RaftTxnId) (op : ExecuteOp) :
    Code Status :=
  if cfg.hasStub shard then executeAttempts shard T op leaderRetryAttempts
  else .ret ⟨.ioError, "no raft leader available on shard"⟩

/-- The code of a future. -/
def Job.code (cfg : Config) : Job → Code JobResult
  | .prepare shard T ts => prepareOnShard cfg shard T ts
  | .commit shard T ts => commitOnShard cfg shard T ts
  | .abort shard T => abortOnShard cfg shard T
  | .abortOnce shard T =>
    if cfg.hasStub shard then do
      let answer ← anyAnswer shard (.abort T) 1
      pure ⟨answer.isSome, false, .ok⟩
    else .ret ⟨false, false, .ok⟩
  | .scan shard T range => do
    let st ← executeWithLeaderRetry cfg shard T (.scan range)
    pure ⟨decide (st.code = .ok), false, st⟩

/-! ## Futures -/

/-- Starts the futures. -/
def spawnAll : List Job → Code (List ℕ)
  | [] => .ret []
  | job :: jobs => do
    let future ← perform (.spawn job)
    let futures ← spawnAll jobs
    pure (future :: futures)

/-- Wait for the futures up to the first one that fails the test. -/
def collect (test : JobResult → Bool) : List ℕ → Code (Option JobResult)
  | [] => .ret none
  | future :: futures => do
    let r ← perform (.get future)
    if test r then collect test futures else pure (some r)

/-- Waits for the futures. -/
def waitAll : List ℕ → Code Unit
  | [] => .ret ()
  | future :: futures => do
    let _ ← perform (.get future)
    waitAll futures

/-! ## The ends of a transaction -/

/-- `AppendCoordinatorRecordWrite`. -/
def appendWrite (type : CoordinatorLogRecordType) (T : RaftTxnId) (shards : List ShardId) :
    Code Bool :=
  perform (.append ⟨type, T, shards⟩)

/-- `AppendCoordinatorRecord`: the record and a flush. -/
def appendRecord (type : CoordinatorLogRecordType) (T : RaftTxnId) (shards : List ShardId) :
    Code Status := do
  if ← appendWrite type T shards then
    if ← perform .flush then pure .ok else pure Status.flushFailed
  else pure Status.writeFailed

/-- `SingleShardCommit`. -/
def singleShardCommit (cfg : Config) (T : RaftTxnId) (shard : ShardId) (ts : Timestamp) :
    Code Status := do
  if !(← appendWrite .preparing T [shard]) then return Status.writeFailed
  if !(← perform .flush) then return Status.flushFailed
  let presp ← prepareOnShard cfg shard T ts
  if !presp.ok then return ⟨.ioError, "Prepare RPC failed"⟩
  if !presp.voteCommit then
    let _ ← appendWrite .aborting T []
    let _ ← abortOnShard cfg shard T
    let _ ← appendWrite .aborted T []
    if !(← perform .flush) then return Status.flushFailed
    return ⟨.conflict, presp.status.message⟩
  if !(← appendWrite .committing T []) then return Status.writeFailed
  let cresp ← commitOnShard cfg shard T ts
  if !cresp.ok then return ⟨.ioError, "Commit RPC failed"⟩
  if !(← appendWrite .committed T []) then return Status.writeFailed
  if !(← perform .flush) then return Status.flushFailed
  return .ok

/-- `TwoPhaseCommit`. -/
def twoPhaseCommit (T : RaftTxnId) (parts : List ShardId) (ts : Timestamp) : Code Status := do
  if !(← appendWrite .preparing T parts) then return Status.writeFailed
  if !(← perform .flush) then return Status.flushFailed
  let prepFuts ← spawnAll (parts.map fun shard => .prepare shard T ts)
  let refused ← collect JobResult.voteCommit prepFuts
  if refused.isSome then
    let _ ← appendWrite .aborting T []
    let abortFuts ← spawnAll (parts.map fun shard => .abort shard T)
    waitAll abortFuts
    let _ ← appendWrite .aborted T []
    let flushed ← perform .flush
    perform .join
    if !flushed then return Status.flushFailed
    return ⟨.conflict, "2PC prepare failed"⟩
  if !(← appendWrite .committing T []) then return Status.writeFailed
  let commitFuts ← spawnAll (parts.map fun shard => .commit shard T ts)
  let failed ← collect JobResult.ok commitFuts
  if failed.isSome then
    perform .join
    return ⟨.ioError, "2PC commit failed"⟩
  if !(← appendWrite .committed T []) then return Status.writeFailed
  if !(← perform .flush) then return Status.flushFailed
  return .ok

/-- `Commit`. -/
def commit (cfg : Config) (T : RaftTxnId) : Code Status := do
  match ← perform (.find T) with
  | none => pure .unknownTxn
  | some txn =>
    if txn.aborted then
      perform (.erase T)
      pure ⟨.invalidArgument, "txn aborted"⟩
    else if txn.participantShards = [] then
      perform (.erase T)
      pure .ok
    else do
      let parts ← perform (.orderShards txn.participantShards)
      let ts ← perform .now
      let out ← match parts with
        | [shard] => singleShardCommit cfg T shard ts
        | parts => twoPhaseCommit T parts ts
      perform (.erase T)
      pure out

/-- `Abort`. -/
def abort (T : RaftTxnId) : Code Status := do
  match ← perform (.take T) with
  | none => pure .ok
  | some txn =>
    if txn.participantShards = [] then pure .ok
    else do
      let parts ← perform (.orderShards txn.participantShards)
      let _ ← appendRecord .aborting T []
      let futs ← spawnAll (parts.map fun shard => .abortOnce shard T)
      waitAll futs
      let _ ← appendRecord .aborted T []
      pure .ok

/-! ## Reads and writes -/

/-- FNV-1a over the key. -/
def routeShard (cfg : Config) (key : Bytes) : ShardId :=
  let hash := key.foldl (fun (h : UInt64) c => (h ^^^ c.toUInt64) * 1099511628211)
    14695981039346656037
  UInt32.ofNat (hash.toNat % max 1 cfg.numShards)

/-- `EnsureShardParticipant`. -/
def ensureShardParticipant (cfg : Config) (T : RaftTxnId) (txn : CoordinatorTxn) (shard : ShardId) :
    Code Status := do
  if shard ∈ txn.participantShards then pure .ok
  else
    let st ← executeWithLeaderRetry cfg shard T (.begin txn.snapshotTs)
    if st.code = .ok then
      perform (.addParticipant T shard)
    pure st

/-- The beginning of `Read`, `Write`, `Delete` and `Scan`. -/
def withTxn (T : RaftTxnId) (body : CoordinatorTxn → Code Status) : Code Status := do
  match ← perform (.find T) with
  | none => pure .unknownTxn
  | some txn => if txn.aborted then pure ⟨.invalidArgument, "txn aborted"⟩ else body txn

/-- `Read`, `Write` and `Delete`: one shard, that of the key. -/
def execute (cfg : Config) (T : RaftTxnId) (key : Bytes) (op : ExecuteOp) : Code Status :=
  withTxn T fun txn => do
    let shard := routeShard cfg key
    let st ← ensureShardParticipant cfg T txn shard
    if st.code = .ok then executeWithLeaderRetry cfg shard T op else pure st

/-- The first loop of `Scan`. -/
def ensureAll (cfg : Config) (T : RaftTxnId) (txn : CoordinatorTxn) : List ShardId → Code Status
  | [] => .ret .ok
  | shard :: shards => do
    let st ← ensureShardParticipant cfg T txn shard
    if st.code = .ok then ensureAll cfg T txn shards else pure st

/-- `Scan`. -/
def scan (cfg : Config) (T : RaftTxnId) (range : ScanRange) : Code Status :=
  withTxn T fun txn => do
    let shards := (List.range cfg.numShards).map UInt32.ofNat
    let st ← ensureAll cfg T txn shards
    if st.code = .ok then
      let futs ← spawnAll (shards.map fun shard => .scan shard T range)
      let failed ← collect JobResult.ok futs
      perform .join
      match failed with
      | some r => pure r.status
      | none => pure .ok
    else pure st

/-! ## Recovery -/

/-- The end of a commit that is driven by `Recover`: `DriveCommit` between two records. -/
def driveCommit (T : RaftTxnId) (shards : List ShardId) : Code Status := do
  let ts ← perform .now
  let futs ← spawnAll (shards.map fun shard => .commit shard T ts)
  let failed ← collect JobResult.ok futs
  perform .join
  if failed.isSome then pure ⟨.ioError, "recovery commit failed"⟩ else pure .ok

/-- `DriveAbort`. -/
def driveAbort (T : RaftTxnId) (shards : List ShardId) : Code Status := do
  let futs ← spawnAll (shards.map fun shard => .abort shard T)
  waitAll futs
  pure .ok

/-- A decision of `Recover`: a record, the calls, and a second record. -/
def carryOut (first last : CoordinatorLogRecordType) (T : RaftTxnId) (drive : Code Status) :
    Code Status := do
  let ls ← appendRecord first T []
  if ls.code = .ok then
    let st ← drive
    if st.code = .ok then appendRecord last T [] else pure st
  else pure ls

/-- The states of the participants, asked one after the other. -/
def queryAll (cfg : Config) (T : RaftTxnId) : List ShardId → Code (List TxnStateCode)
  | [] => .ret []
  | shard :: shards => do
    let state ← queryShardTxnState cfg shard T
    let states ← queryAll cfg T shards
    pure (state :: states)

/-- The turn of the main loop for one transaction. -/
def recoverTxn (cfg : Config) (T : RaftTxnId) (st : TxnRecoveryState) : Code Status :=
  let commitIt := carryOut .committing .committed T (driveCommit T st.shards)
  let abortIt := carryOut .aborting .aborted T (driveAbort T st.shards)
  if !st.sawPreparing || st.sawCommitted || st.sawAborted then .ret .ok
  else if st.shards = [] then .ret .ok
  else if st.sawCommitting then commitIt
  else if st.sawAborting then abortIt
  else do
    let states ← queryAll cfg T st.shards
    let anyAborted := states.any fun state => state = .aborted
    let anyCommitted := states.any fun state => state = .committed
    let allPrepared := states.all fun state => state = .prepared || state = .committed
    if anyAborted then abortIt
    else if allPrepared || anyCommitted then commitIt
    else abortIt

/-- The loop over the transactions. -/
def recoverAll (cfg : Config) (states : RaftTxnId → TxnRecoveryState) :
    List RaftTxnId → Code Status
  | [] => .ret .ok
  | T :: txns => do
    let st ← recoverTxn cfg T (states T)
    if st.code = .ok then recoverAll cfg states txns else pure st

/-- `Recover`. -/
def recover (cfg : Config) : Code Status := do
  let records ← perform .replay
  let txns ← perform (.orderTxns (recordedTxns records))
  recoverAll cfg (recoveryState records) txns

end TransDb.Coordinator
