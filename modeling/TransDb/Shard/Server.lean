import TransDb.Core.Machine
import TransDb.Raft.StateMachine

/-!
# The shard server

The model of `ShardServiceImpl` (`src/shard/shard_server.cpp`): any number of handler
threads, replicas that apply a common log, and leaders that come and go.  A handler is
cut wherever it lets go of a mutex, and inside its calls of the transaction manager.

* `Rpc`, `Response` — requests and answers.
* `Pc` — where a handler stands.
* `Handler.step` — what one step of a handler does.
* `shard` — the machine: requests arrive, handlers go on, replicas apply, the log grows
  and leaders change.
-/

namespace TransDb.Shard

open Function

open Storage Txn Raft

abbrev ReplicaId := ℕ

abbrev ThreadId := ℕ

/-! ## Requests and answers -/

/-- A read or a write. -/
inductive ExecuteOp where
  | begin (snapshotTs : Timestamp)
  | read (tableId : TableId) (key : Bytes)
  | write (tableId : TableId) (key value : Bytes)
  | delete (tableId : TableId) (key : Bytes)
  | scan (range : ScanRange)
  deriving DecidableEq

/-- A request to the shard. -/
inductive Rpc where
  | execute (raftTxnId : RaftTxnId) (op : ExecuteOp)
  | prepare (raftTxnId : RaftTxnId) (commitTs : Timestamp)
  | commit (raftTxnId : RaftTxnId) (commitTs : Timestamp)
  | abort (raftTxnId : RaftTxnId)
  | queryTxnState (raftTxnId : RaftTxnId)
  deriving DecidableEq

/-- The transaction of a request. -/
def Rpc.raftTxnId : Rpc → RaftTxnId
  | .execute T _ => T
  | .prepare T _ => T
  | .commit T _ => T
  | .abort T => T
  | .queryTxnState T => T

/-- `QueryTxnState` answers this. -/
inductive TxnStateCode where
  | unknown
  | inFlight
  | prepared
  | committed
  | aborted
  deriving DecidableEq

/-- An answer of the shard. -/
inductive Response where
  | execute (ok : Bool) (errorCode : StatusCode) (errorMessage : String) (value : Bytes)
      (rows : List (Bytes × Bytes))
  | prepare (voteCommit : Bool) (errorMessage : String)
  | commit (ok : Bool) (errorMessage : String)
  | abort (ok : Bool)
  | txnState (state : TxnStateCode)
  deriving DecidableEq

namespace Response

/-- An `Execute` that fails before it reaches the manager. -/
def refuse (message : String) : Response := .execute false .invalidArgument message [] []

/-- The reply of the manager. -/
def ofReply (r : Reply) : Response :=
  if r.status.code ≠ .ok then .execute false r.status.code r.status.message [] []
  else .execute true .ok "" r.value r.rows

/-- What is answered when there is no leader. -/
def noLeader : Rpc → Response
  | .execute _ _ => refuse "no raft leader available"
  | .prepare _ _ => .prepare false "no leader"
  | .commit _ _ => .commit false "no leader"
  | .abort _ => .abort true
  | .queryTxnState _ => .txnState .unknown

end Response

/-- The call of the manager that an operation other than `BEGIN` makes. -/
def ExecuteOp.mgrOp (localTxnId : TxnId) : ExecuteOp → Op
  | .begin ts => .begin ts
  | .read tb k => .read localTxnId tb k
  | .write tb k v => .write localTxnId tb k v
  | .delete tb k => .delete localTxnId tb k
  | .scan r => .scan localTxnId r

/-- Reads and scans also look into the map of the state machine. -/
def ExecuteOp.isRead : ExecuteOp → Bool
  | .read _ _ => true
  | .scan _ => true
  | _ => false

/-! ## Handlers -/

/-- An entry of `pending_txns_`. -/
structure PendingTxn where
  raftTxnId : RaftTxnId
  snapshotTs : Timestamp
  localTxnId : TxnId
  preparedReplicated : Bool
  deriving DecidableEq

/-- What a handler does when its call of the manager returns. -/
inductive AfterCall where
  | begun (snapshotTs : Timestamp)
  | answer
  | prepared (commitTs : Timestamp) (p : PendingTxn)
  | abandoned (message : String)
  | aborted

/-- What `ProposeAndWait` is called for. -/
inductive Proposal where
  | prepareBatch (p : PendingTxn)
  | commit
  | abort

/-- Why a transaction is forgotten and erased. -/
inductive Erasure where
  | prepareFailed (message : String)
  | aborted

/-- Where a handler stands. -/
inductive Pc where
  | call (c : Call) (next : AfterCall)
  | register (snapshotTs : Timestamp) (localTxnId : TxnId)
  | addPending (snapshotTs : Timestamp) (localTxnId : TxnId)
  | find (op : ExecuteOp)
  | findMap (op : ExecuteOp)
  | prepareFind (commitTs : Timestamp)
  | getTxn (commitTs : Timestamp) (p : PendingTxn)
  | propose (type : RaftEntryType) (payload : Bytes) (next : Proposal)
  | wait (replica : ReplicaId) (ix : ℕ) (next : Proposal)
  | takeResult
  | markPrepared
  | forget (why : Erasure)
  | erase (why : Erasure)
  | finishCommit
  | abortFind
  | query

/-- A handler in progress. -/
structure Handler where
  rpc : Rpc
  /-- The leader that was found at the beginning. -/
  replica : ReplicaId
  pc : Pc

/-- What is noted of a run. -/
inductive Event where
  | received (th : ThreadId) (rpc : Rpc)
  | answered (th : ThreadId) (rpc : Rpc) (r : Response)
  deriving DecidableEq

/-- The service and its replicas. -/
structure ShardService where
  leader : Option ReplicaId
  term : ℕ
  /-- The log of the leader. -/
  log : List RaftLogEntry
  commitIndex : ℕ
  replicas : ReplicaId → Replica
  pendingTxns : RaftTxnId → Option PendingTxn
  terminalTxnStates : RaftTxnId → Option TxnStateCode
  handlers : ThreadId → Option Handler
  /-- What the clients have seen, the last event first. -/
  history : List Event
  /-- The replica that served the `BEGIN` of a pending transaction. -/
  home : RaftTxnId → ReplicaId

/-- Where the handler of a request starts. -/
def Rpc.entry : Rpc → Pc
  | .execute _ (.begin ts) => .call (Op.begin ts).entry (.begun ts)
  | .execute _ op => .find op
  | .prepare _ ts => .prepareFind ts
  | .commit T ts =>
    .propose .txnCommit (packTxnPayload (WAL.serializeCommitPayload ts) T) .commit
  | .abort _ => .abortFind
  | .queryTxnState _ => .query

/-- A handler goes on, or answers. -/
inductive Next where
  | goto (pc : Pc)
  | answer (r : Response)

/-- What one step of a handler changes: its replica, the log, the maps of the server. -/
structure Effect where
  replica : Replica
  log : List RaftLogEntry
  pendingTxns : RaftTxnId → Option PendingTxn
  terminalTxnStates : RaftTxnId → Option TxnStateCode
  home : RaftTxnId → ReplicaId
  next : Next

namespace ShardService

/-- No request has come. -/
def init : ShardService :=
  ⟨none, 0, [], 0, fun _ => .empty, fun _ => none, fun _ => none, fun _ => none, [], fun _ => 0⟩

/-- The step changes nothing but where the handler stands. -/
def keep (s : ShardService) (x : Handler) (next : Next) : Effect :=
  ⟨s.replicas x.replica, s.log, s.pendingTxns, s.terminalTxnStates, s.home, next⟩

end ShardService

/-- After a call of the manager has returned. -/
def AfterCall.returned (r : Reply) : AfterCall → Next
  | .begun ts => .goto (.register ts (r.txnId.getD 0))
  | .answer => .answer (.ofReply r)
  | .prepared ts p =>
    if r.status.code = .ok then .goto (.getTxn ts p)
    else .goto (.call (Op.abort p.localTxnId).entry (.abandoned r.status.message))
  | .abandoned message => .goto (.forget (.prepareFailed message))
  | .aborted => .goto (.forget .aborted)

/-- After `ProposeAndWait` has failed. -/
def Proposal.failed : Proposal → Next
  | .prepareBatch p =>
    .goto (.call (Op.abort p.localTxnId).entry (.abandoned "prepare batch not replicated"))
  | .commit => .answer (.commit false "")
  | .abort => .answer (.abort false)

/-- After `ProposeAndWait` has succeeded. -/
def Proposal.succeeded : Proposal → Next
  | .prepareBatch _ => .goto .takeResult
  | .commit => .goto .finishCommit
  | .abort => .goto (.erase .aborted)

/-- One step of a handler: up to the point where it lets go of a mutex, or one step of
a call of the manager. -/
def Handler.step (s : ShardService) (timedOut : Bool) (x : Handler) : Option Effect :=
  let T := x.rpc.raftTxnId
  let R := s.replicas x.replica
  match x.pc with
  | .call c next =>
    match R.call T c timedOut with
    | none => none
    | some (R', .more c') => some { s.keep x (.goto (.call c' next)) with replica := R' }
    | some (R', .done r) => some { s.keep x (next.returned r) with replica := R' }
  | .register ts l =>
    if R.mutexFree then
      some { s.keep x (.goto (.addPending ts l)) with
        replica := { R with sm := R.sm.registerLocalTxn T l } }
    else none
  | .addPending ts l =>
    some { s.keep x (.answer (.execute true .ok "" [] [])) with
      pendingTxns := update s.pendingTxns T (some ⟨T, ts, l, false⟩)
      home := update s.home T x.replica }
  | .find op =>
    let l := ((s.pendingTxns T).map PendingTxn.localTxnId).getD 0
    if l ≠ 0 then some (s.keep x (.goto (.call (op.mgrOp l).entry .answer)))
    else if op.isRead then some (s.keep x (.goto (.findMap op)))
    else some (s.keep x (.answer (.refuse "txn not begun on shard")))
  | .findMap op =>
    if R.mutexFree then
      let l := R.sm.getLocalTxnId T
      if l ≠ 0 then some (s.keep x (.goto (.call (op.mgrOp l).entry .answer)))
      else some (s.keep x (.answer (.refuse "txn not begun on shard")))
    else none
  | .prepareFind ts =>
    match s.pendingTxns T with
    | none => some (s.keep x (.answer (.prepare false "unknown txn")))
    | some p => some (s.keep x (.goto (.call (Op.prepare p.localTxnId ts).entry (.prepared ts p))))
  | .getTxn ts p =>
    match R.mgr.txns p.localTxnId with
    | none => some (s.keep x (.goto (.forget (.prepareFailed "prepared txn missing"))))
    | some t =>
      some (s.keep x (.goto (.propose .txnPrepareBatch
        (packPrepareBatchPayload T p.snapshotTs ts t.writeSet) (.prepareBatch p))))
  | .propose type payload next =>
    match s.leader with
    | none => some (s.keep x next.failed)
    | some L =>
      -- the mutex of the Raft node is held during `Apply`
      if (s.replicas L).applying.isSome then none
      else
        some { s.keep x (.goto (.wait L (s.log.length + 1) next)) with
          log := s.log ++ [⟨s.log.length + 1, s.term, type, payload⟩] }
  | .wait L ix next =>
    if (s.replicas L).applying.isSome then none
    else if ix ≤ (s.replicas L).lastApplied then some (s.keep x next.succeeded)
    else if timedOut then some (s.keep x next.failed)
    else none
  | .takeResult =>
    if R.mutexFree then
      match R.sm.prepareResults T with
      | none => some (s.keep x (.answer (.prepare false "missing prepare result")))
      | some pr =>
        some { s.keep x (if pr.success then .goto .markPrepared else .answer (.prepare false pr.error)) with
          replica := { R with sm := R.sm.setPrepareResult T none } }
    else none
  | .markPrepared =>
    some { s.keep x (.answer (.prepare true "")) with
      pendingTxns := update s.pendingTxns T
        ((s.pendingTxns T).map fun p => { p with preparedReplicated := true }) }
  | .forget why =>
    if R.mutexFree then
      some { s.keep x (.goto (.erase why)) with replica := { R with sm := R.sm.forgetTxn T } }
    else none
  | .erase (.prepareFailed message) =>
    some { s.keep x (.answer (.prepare false message)) with
      pendingTxns := update s.pendingTxns T none }
  | .erase .aborted =>
    some { s.keep x (.answer (.abort true)) with
      pendingTxns := update s.pendingTxns T none
      terminalTxnStates := update s.terminalTxnStates T (some .aborted) }
  | .finishCommit =>
    some { s.keep x (.answer (.commit true "")) with
      pendingTxns := update s.pendingTxns T none
      terminalTxnStates := update s.terminalTxnStates T (some .committed) }
  | .abortFind =>
    let propose : Effect := s.keep x (.goto (.propose .txnAbort (packAbortPayload T) .abort))
    match s.pendingTxns T with
    | none => some propose
    | some p =>
      if p.preparedReplicated then some propose
      else some (s.keep x (.goto (.call (Op.abort p.localTxnId).entry .aborted)))
  | .query =>
    match s.terminalTxnStates T with
    | some state => some (s.keep x (.answer (.txnState state)))
    | none =>
      match s.pendingTxns T with
      | some p =>
        some (s.keep x (.answer (.txnState (if p.preparedReplicated then .prepared else .inFlight))))
      | none =>
        if R.mutexFree then
          some (s.keep x (.answer (.txnState
            (if R.sm.isTxnPrepared T then .prepared else .unknown))))
        else none

/-! ## The machine -/

/-- What happens next. -/
inductive Action where
  | receive (th : ThreadId) (rpc : Rpc)
  | step (th : ThreadId) (timedOut : Bool)
  | apply (r : ReplicaId) (timedOut : Bool)
  | advance (commitIndex : ℕ)
  /-- A new leader, or none; of the entries that are not committed some may be lost. -/
  | elect (leader : Option ReplicaId) (kept : ℕ)

namespace ShardService

/-- The handler of a request has started on a replica. -/
def started (s : ShardService) (th : ThreadId) (rpc : Rpc) (L : ReplicaId) : ShardService :=
  { s with
    handlers := update s.handlers th (some ⟨rpc, L, rpc.entry⟩)
    history := .received th rpc :: s.history }

/-- A request has been answered at once. -/
def turnedAway (s : ShardService) (th : ThreadId) (rpc : Rpc) : ShardService :=
  { s with history := .answered th rpc (.noLeader rpc) :: .received th rpc :: s.history }

/-- A request arrives.  `QueryTxnState` asks the first replica and needs no leader. -/
def receive (s : ShardService) (th : ThreadId) (rpc : Rpc) : ShardService :=
  match rpc, s.leader with
  | .queryTxnState _, _ => s.started th rpc 0
  | _, some L => s.started th rpc L
  | _, none => s.turnedAway th rpc

/-- The handler of a thread has taken a step. -/
def after (s : ShardService) (th : ThreadId) (x : Handler) (f : Effect) : ShardService :=
  { s with
    log := f.log
    replicas := update s.replicas x.replica f.replica
    pendingTxns := f.pendingTxns
    terminalTxnStates := f.terminalTxnStates
    home := f.home
    handlers := update s.handlers th
      (match f.next with
      | .goto pc => some { x with pc := pc }
      | .answer _ => none)
    history :=
      match f.next with
      | .goto _ => s.history
      | .answer r => .answered th x.rpc r :: s.history }

/-- The Raft thread of a replica goes on, or starts with the next committed entry. -/
def apply (s : ShardService) (r : ReplicaId) (timedOut : Bool) : Option Replica :=
  let R := s.replicas r
  match R.applying with
  | some a => R.applyStep timedOut a
  | none =>
    if R.lastApplied < s.commitIndex then
      (s.log[R.lastApplied]?).map fun e => { R with applying := some (.entry e) }
    else none

/-- One turn. -/
def step (s : ShardService) : Action → Option ShardService
  | .receive th rpc => if (s.handlers th).isNone then some (s.receive th rpc) else none
  | .step th timedOut =>
    match s.handlers th with
    | none => none
    | some x => (x.step s timedOut).map (s.after th x)
  | .apply r timedOut =>
    (s.apply r timedOut).map fun R => { s with replicas := update s.replicas r R }
  | .advance n =>
    if s.commitIndex ≤ n ∧ n ≤ s.log.length then some { s with commitIndex := n } else none
  | .elect leader kept =>
    if s.commitIndex ≤ kept then
      let log := s.log.take kept
      some { s with
        leader := leader
        term := s.term + 1
        log := if leader.isSome then log ++ [⟨log.length + 1, s.term + 1, .noop, []⟩] else log }
    else none

end ShardService

/-- The machine of one shard. -/
def shard : Machine ShardService Action :=
  ⟨ShardService.init, ShardService.step⟩

end TransDb.Shard
