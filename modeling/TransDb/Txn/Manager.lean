import TransDb.Txn.LockManager
import TransDb.Txn.Wal

/-!
# The transaction manager

The model of `TxnManager` (`src/txn/txn_manager.cpp`), with every WAL write
succeeding.  Calls of different threads interleave wherever a call lets go of a
mutex, so a call is cut there: a `Call` is where a thread stands inside one, with
the local variables it still needs, and `Call.step` runs it to the next cut.

* `TxnManager` — the shared state: store, log, locks, the id counter and `txns_`.
* `Op` — what a client can ask for; `Op.entry` is the start of the call.
* `Call.step` — one critical section, or one operation on the store, the log or the
  locks.
-/

namespace TransDb.Txn

open Storage

/-- How an operation went. -/
inductive StatusCode where
  | ok
  | notFound
  | timedOut
  | conflict
  | ioError
  | invalidArgument
  | notSupported
  deriving DecidableEq, Repr

/-- A code and a text. -/
structure Status where
  code : StatusCode
  message : String
  deriving DecidableEq, Repr

namespace Status

/-- `Status::OK()`. -/
def ok : Status := ⟨.ok, ""⟩

/-- `Status::NotFound()`. -/
def notFound : Status := ⟨.notFound, ""⟩

/-- No such transaction. -/
def unknownTxn : Status := ⟨.invalidArgument, "unknown txn"⟩

/-- It is not active. -/
def txnNotActive : Status := ⟨.invalidArgument, "txn not active"⟩

/-- It has ended meanwhile. -/
def txnInactive : Status := ⟨.invalidArgument, "txn inactive"⟩

/-- It cannot be committed. -/
def txnNotPrepared : Status := ⟨.invalidArgument, "txn not prepared"⟩

/-- A row it read has changed. -/
def readValidationFailed : Status := ⟨.conflict, "read validation failed"⟩

/-- It waited too long. -/
def lockTimeout : Status := ⟨.timedOut, "lock acquire timeout"⟩

end Status

/-- Where a transaction is. -/
inductive TxnState where
  | active
  | prepared
  | committed
  | aborted
  deriving DecidableEq, Repr

/-- A write that is not applied yet. -/
structure BufferedWrite where
  tableId : TableId
  key : Bytes
  value : Bytes
  isDelete : Bool
  deriving DecidableEq

/-- A row that was read. -/
structure ReadEntry where
  tableId : TableId
  key : Bytes
  observedWriteTs : Timestamp
  deriving DecidableEq

/-- A transaction. -/
structure Transaction where
  txnId : TxnId
  snapshotTs : Timestamp
  prepareCommitTs : Timestamp
  state : TxnState
  writeSet : List BufferedWrite
  readSet : List ReadEntry
  lockedKeys : List (TableId × Bytes)
  deriving DecidableEq

/-- The state that the threads share. -/
structure TxnManager where
  store : MVCCStore
  wal : WAL
  lockMgr : LockManager
  nextTxnId : TxnId
  txns : TxnId → Option Transaction

/-- What a call returns: its status, and the id, value or rows it hands back. -/
structure Reply where
  status : Status
  txnId : Option TxnId
  value : Bytes
  rows : List (Bytes × Bytes)
  deriving DecidableEq

/-- A reply that is only a status. -/
def Reply.of (s : Status) : Reply := ⟨s, none, [], []⟩

/-! ## Helpers of the source -/

/-- The last buffered write of a row. -/
def latestBuffered (writes : List BufferedWrite) (tableId : TableId) (key : Bytes) :
    Option BufferedWrite :=
  writes.reverse.find? fun w => decide (w.tableId = tableId ∧ w.key = key)

/-- The key of the lock a write needs. -/
def BufferedWrite.lockKey (w : BufferedWrite) : Bytes := makeLockKey w.tableId w.key

/-- The log record of a buffered write. -/
def BufferedWrite.record (w : BufferedWrite) : WALRecordType × Bytes :=
  if w.isDelete then (.delete, WAL.serializeDeletePayload w.tableId w.key 0)
  else (.write, WAL.serializeWritePayload w.tableId w.key w.value 0)

/-- One turn of the loop of `ApplyWrites`. -/
def BufferedWrite.apply (w : BufferedWrite) (store : MVCCStore) (commitTs : Timestamp) : MVCCStore :=
  if w.isDelete then MVCCStore.delete store w.tableId w.key commitTs
  else MVCCStore.put store w.tableId w.key commitTs w.value

/-- `ValidateReadSet`: every row read is still the newest one at the commit
timestamp. -/
def validateReadSet (store : MVCCStore) (txn : Transaction) (commitTs : Timestamp) : Bool :=
  txn.readSet.all fun r =>
    match MVCCStore.get store r.tableId r.key commitTs with
    | none => false
    | some (_, ts) => decide (ts = r.observedWriteTs)

namespace TxnManager

/-- Nothing has happened yet. -/
def empty : TxnManager := ⟨SortedMap.empty, WAL.empty, LockManager.empty, 1, fun _ => none⟩

/-- An entry of `txns_` is changed. -/
def setTxn (m : TxnManager) (txnId : TxnId) (t : Option Transaction) : TxnManager :=
  { m with txns := Function.update m.txns txnId t }

/-- A record is written. -/
def log (m : TxnManager) (txnId : TxnId) (rec : WALRecordType × Bytes) : TxnManager :=
  { m with wal := m.wal.append txnId rec.1 rec.2 }

end TxnManager

/-! ## Operations and calls -/

/-- What a client can ask for. -/
inductive Op where
  | begin (snapshotTs : Timestamp)
  | read (txnId : TxnId) (tableId : TableId) (key : Bytes)
  | scan (txnId : TxnId) (range : ScanRange)
  | write (txnId : TxnId) (tableId : TableId) (key value : Bytes)
  | delete (txnId : TxnId) (tableId : TableId) (key : Bytes)
  | prepare (txnId : TxnId) (commitTs : Timestamp)
  | commit (txnId : TxnId) (commitTs : Timestamp)
  | abort (txnId : TxnId)
  | importPreparedTxn (snapshotTs commitTs : Timestamp) (writes : List BufferedWrite)
  deriving DecidableEq

/-- The transaction an operation is about, where it names one. -/
def Op.txnId : Op → Option TxnId
  | .begin _ => none
  | .read t _ _ => some t
  | .scan t _ => some t
  | .write t _ _ _ => some t
  | .delete t _ _ => some t
  | .prepare t _ => some t
  | .commit t _ => some t
  | .abort t => some t
  | .importPreparedTxn _ _ _ => none

/-- Where a thread stands inside a call. -/
inductive Call where
  /-- `Begin`: before the id is drawn, before the record, before the insertion. -/
  | begin (snapshotTs : Timestamp)
  | beginLog (txnId : TxnId) (snapshotTs : Timestamp)
  | beginInsert (txnId : TxnId) (snapshotTs : Timestamp)
  /-- `Read`: before the check, before the store, before the entry in the read set. -/
  | read (txnId : TxnId) (tableId : TableId) (key : Bytes)
  | readStore (txnId : TxnId) (tableId : TableId) (key : Bytes) (snapshotTs : Timestamp)
  | readRecord (txnId : TxnId) (tableId : TableId) (key value : Bytes) (valueTs : Timestamp)
  /-- `Scan`: before the check, before the iterator, between two rows. -/
  | scan (txnId : TxnId) (range : ScanRange)
  | scanStore (txnId : TxnId) (range : ScanRange) (snapshotTs : Timestamp)
      (writes : List BufferedWrite)
  | scanRow (txnId : TxnId) (tableId : TableId) (writes : List BufferedWrite)
      (rest : List ScanRow) (out : List (Bytes × Bytes))
  /-- `Write` and `Delete`: before the lock, waiting for it, before the check. -/
  | acquire (txnId : TxnId) (w : BufferedWrite)
  | wait (txnId : TxnId) (w : BufferedWrite)
  | buffer (txnId : TxnId) (w : BufferedWrite)
  | prepare (txnId : TxnId) (commitTs : Timestamp)
  /-- `Commit`: before the check, between two puts (or before the record). -/
  | commit (txnId : TxnId) (commitTs : Timestamp)
  | applyWrites (txnId : TxnId) (commitTs : Timestamp) (rest : List BufferedWrite)
  /-- `Abort`, which is also the end of a failed `Write` or `Prepare`: before the
  check, before the record. -/
  | abort (txnId : TxnId) (status : Status)
  | abortLog (txnId : TxnId) (status : Status)
  /-- The two halves of `ReleaseAll` at the end of a call. -/
  | releaseAll (txnId : TxnId) (status : Status)
  | releaseKeys (txnId : TxnId) (keys : List Bytes) (status : Status)
  /-- `ImportPreparedTxn`: before the id is drawn, between two records, before the
  insertion. -/
  | importPreparedTxn (snapshotTs commitTs : Timestamp) (writes : List BufferedWrite)
  | importLog (txnId : TxnId) (snapshotTs commitTs : Timestamp) (writes : List BufferedWrite)
      (rest : List (WALRecordType × Bytes))

/-- Where the call of an operation starts. -/
def Op.entry : Op → Call
  | .begin ts => .begin ts
  | .read t tb k => .read t tb k
  | .scan t r => .scan t r
  | .write t tb k v => .acquire t ⟨tb, k, v, false⟩
  | .delete t tb k => .acquire t ⟨tb, k, [], true⟩
  | .prepare t ts => .prepare t ts
  | .commit t ts => .commit t ts
  | .abort t => .abort t .ok
  | .importPreparedTxn s c ws => .importPreparedTxn s c ws

/-- A call goes on, or is over. -/
inductive Outcome where
  | more (c : Call)
  | done (r : Reply)

/-- A transaction as `Begin` makes it. -/
def Transaction.fresh (txnId : TxnId) (snapshotTs : Timestamp) : Transaction :=
  ⟨txnId, snapshotTs, 0, .active, [], [], []⟩

/-- The records of `ImportPreparedTxn`, in order. -/
def importRecords (snapshotTs commitTs : Timestamp) (writes : List BufferedWrite) :
    List (WALRecordType × Bytes) :=
  (.begin, WAL.serializeBeginPayload snapshotTs) :: writes.map BufferedWrite.record ++
    [(.prepare, WAL.serializePreparePayload commitTs)]

/-- The first check of `Read` and `Scan`. -/
def checkActive (m : TxnManager) (txnId : TxnId) : Except Status Transaction :=
  match m.txns txnId with
  | none => .error .unknownTxn
  | some t => if t.state ≠ .active then .error .txnNotActive else .ok t

/-- The later check of `Read` and `Scan`, and the entry in the read set. -/
def recordRead (m : TxnManager) (txnId : TxnId) (r : ReadEntry) : Option TxnManager :=
  match m.txns txnId with
  | none => none
  | some t =>
    if t.state ≠ .active then none
    else some (m.setTxn txnId (some { t with readSet := t.readSet ++ [r] }))

/-- Run a call to its next cut.  `timedOut` says, for a waiting call, that its time is
up; a call that waits for a lock it has not got cannot go on otherwise. -/
def Call.step (m : TxnManager) (timedOut : Bool) : Call → Option (TxnManager × Outcome)
  | .begin ts =>
    some ({ m with nextTxnId := m.nextTxnId + 1 }, .more (.beginLog m.nextTxnId ts))
  | .beginLog t ts =>
    some (m.log t (.begin, WAL.serializeBeginPayload ts), .more (.beginInsert t ts))
  | .beginInsert t ts =>
    some (m.setTxn t (some (.fresh t ts)), .done ⟨.ok, some t, [], []⟩)
  | .read t tb k =>
    match checkActive m t with
    | .error e => some (m, .done (.of e))
    | .ok txn =>
      match latestBuffered txn.writeSet tb k with
      | some bw => some (m, .done (if bw.isDelete then .of .notFound else ⟨.ok, none, bw.value, []⟩))
      | none => some (m, .more (.readStore t tb k txn.snapshotTs))
  | .readStore t tb k ts =>
    match MVCCStore.get m.store tb k ts with
    | none => some (m, .done (.of .notFound))
    | some (v, vts) => some (m, .more (.readRecord t tb k v vts))
  | .readRecord t tb k v vts =>
    match recordRead m t ⟨tb, k, vts⟩ with
    | none => some (m, .done (.of .txnInactive))
    | some m' => some (m', .done ⟨.ok, none, v, []⟩)
  | .scan t r =>
    match checkActive m t with
    | .error e => some (m, .done (.of e))
    | .ok txn => some (m, .more (.scanStore t r txn.snapshotTs txn.writeSet))
  | .scanStore t r ts ws =>
    some (m, .more (.scanRow t r.tableId ws (MVCCStore.scan m.store r ts) []))
  | .scanRow _ _ _ [] out => some (m, .done ⟨.ok, none, [], out⟩)
  | .scanRow t tb ws (row :: rest) out =>
    match latestBuffered ws tb row.pk with
    | some bw =>
      let out' := if bw.isDelete then out else out ++ [(row.pk, bw.value)]
      some (m, .more (.scanRow t tb ws rest out'))
    | none =>
      match recordRead m t ⟨tb, row.pk, row.writeTs⟩ with
      | none => some (m, .done (.of .txnInactive))
      | some m' => some (m', .more (.scanRow t tb ws rest (out ++ [(row.pk, row.value)])))
  | .acquire t w =>
    let r := m.lockMgr.acquire w.lockKey t
    some ({ m with lockMgr := r.1 }, .more (if r.2 then .buffer t w else .wait t w))
  | .wait t w =>
    if timedOut then
      let r := m.lockMgr.timeout w.lockKey t
      some ({ m with lockMgr := r.1 },
        .more (if r.2 then .buffer t w else .abort t .lockTimeout))
    else
      (m.lockMgr.wake w.lockKey t).map fun l => ({ m with lockMgr := l }, .more (.buffer t w))
  | .buffer t w =>
    match m.txns t with
    | none => some (m, .more (.releaseAll t .unknownTxn))
    | some txn =>
      if txn.state ≠ .active then some (m, .more (.releaseAll t .txnNotActive))
      else
        some ((m.setTxn t (some { txn with
            lockedKeys := txn.lockedKeys ++ [(w.tableId, w.key)]
            writeSet := txn.writeSet ++ [w] })).log t w.record,
          .done (.of .ok))
  | .prepare t ts =>
    match checkActive m t with
    | .error e => some (m, .done (.of e))
    | .ok txn =>
      if validateReadSet m.store txn ts then
        some ((m.setTxn t (some { txn with state := .prepared, prepareCommitTs := ts })).log t
            (.prepare, WAL.serializePreparePayload ts),
          .done (.of .ok))
      else some (m.setTxn t none, .more (.abortLog t .readValidationFailed))
  | .commit t ts =>
    match m.txns t with
    | none => some (m, .done (.of .unknownTxn))
    | some txn =>
      if txn.state ≠ .prepared then some (m, .done (.of .txnNotPrepared))
      else some (m.setTxn t none, .more (.applyWrites t ts txn.writeSet))
  | .applyWrites t ts (w :: rest) =>
    some ({ m with store := w.apply m.store ts }, .more (.applyWrites t ts rest))
  | .applyWrites t ts [] =>
    some (m.log t (.commit, WAL.serializeCommitPayload ts), .more (.releaseAll t .ok))
  | .abort t r =>
    match m.txns t with
    | none => some (m, .done (.of r))
    | some _ => some (m.setTxn t none, .more (.abortLog t r))
  | .abortLog t r => some (m.log t (.abort, []), .more (.releaseAll t r))
  | .releaseAll t r =>
    let l := m.lockMgr.takeAll t
    some ({ m with lockMgr := l.1 }, .more (.releaseKeys t l.2 r))
  | .releaseKeys t keys r =>
    some ({ m with lockMgr := m.lockMgr.releaseKeys t keys }, .done (.of r))
  | .importPreparedTxn s c ws =>
    some ({ m with nextTxnId := m.nextTxnId + 1 },
      .more (.importLog m.nextTxnId s c ws (importRecords s c ws)))
  | .importLog t s c ws (r :: rest) => some (m.log t r, .more (.importLog t s c ws rest))
  | .importLog t s c ws [] =>
    some (m.setTxn t (some ⟨t, s, c, .prepared, ws, [], []⟩), .done ⟨.ok, some t, [], []⟩)

/-! ## What a step can be -/

section

variable {m m' : TxnManager} {T : TxnId}

theorem checkActive_ok {t : Transaction} (h : checkActive m T = .ok t) :
    m.txns T = some t ∧ t.state = .active := by
  unfold checkActive at h
  cases ht : m.txns T with
  | none => simp [ht] at h
  | some t' =>
    simp only [ht] at h
    split_ifs at h with hs
    cases h
    exact ⟨rfl, not_not.mp hs⟩

theorem checkActive_error {e : Status} (h : checkActive m T = .error e) :
    e = .unknownTxn ∨ e = .txnNotActive := by
  unfold checkActive at h
  split at h
  · cases h
    exact .inl rfl
  · split_ifs at h
    cases h
    exact .inr rfl

theorem recordRead_some {r : ReadEntry} (h : recordRead m T r = some m') :
    ∃ t, m.txns T = some t ∧ t.state = .active ∧
      m' = m.setTxn T (some { t with readSet := t.readSet ++ [r] }) := by
  unfold recordRead at h
  cases ht : m.txns T with
  | none => simp [ht] at h
  | some t =>
    simp only [ht] at h
    split_ifs at h with hs
    cases h
    exact ⟨t, rfl, not_not.mp hs, rfl⟩

end

/-- The branches of `Call.step`, one for each way through a critical section. -/
inductive Call.Steps (m : TxnManager) : Call → TxnManager → Outcome → Prop
  | begin {ts} : Steps m (.begin ts) { m with nextTxnId := m.nextTxnId + 1 }
      (.more (.beginLog m.nextTxnId ts))
  | beginLog {T ts} : Steps m (.beginLog T ts)
      (m.log T (.begin, WAL.serializeBeginPayload ts)) (.more (.beginInsert T ts))
  | beginInsert {T ts} : Steps m (.beginInsert T ts) (m.setTxn T (some (.fresh T ts)))
      (.done ⟨.ok, some T, [], []⟩)
  | readRefused {T tb k e} (h : checkActive m T = .error e) :
      Steps m (.read T tb k) m (.done (.of e))
  | readOwn {T tb k t bw} (ht : m.txns T = some t)
      (hb : latestBuffered t.writeSet tb k = some bw) : Steps m (.read T tb k) m
        (.done (if bw.isDelete then .of .notFound else ⟨.ok, none, bw.value, []⟩))
  | read {T tb k t} (ht : m.txns T = some t) (hb : latestBuffered t.writeSet tb k = none) :
      Steps m (.read T tb k) m (.more (.readStore T tb k t.snapshotTs))
  | readMissing {T tb k ts} (hg : MVCCStore.get m.store tb k ts = none) :
      Steps m (.readStore T tb k ts) m (.done (.of .notFound))
  | readFound {T tb k ts v vts} (hg : MVCCStore.get m.store tb k ts = some (v, vts)) :
      Steps m (.readStore T tb k ts) m (.more (.readRecord T tb k v vts))
  | recordLate {T tb k v vts} :
      Steps m (.readRecord T tb k v vts) m (.done (.of .txnInactive))
  | record {T tb k v vts t} (ht : m.txns T = some t) (hact : t.state = .active) :
      Steps m (.readRecord T tb k v vts)
        (m.setTxn T (some { t with readSet := t.readSet ++ [⟨tb, k, vts⟩] }))
        (.done ⟨.ok, none, v, []⟩)
  | scanRefused {T r e} (h : checkActive m T = .error e) :
      Steps m (.scan T r) m (.done (.of e))
  | scan {T r t} (ht : m.txns T = some t) :
      Steps m (.scan T r) m (.more (.scanStore T r t.snapshotTs t.writeSet))
  | scanStore {T r ts ws} : Steps m (.scanStore T r ts ws) m
      (.more (.scanRow T r.tableId ws (MVCCStore.scan m.store r ts) []))
  | scanEnd {T tb ws out} :
      Steps m (.scanRow T tb ws [] out) m (.done ⟨.ok, none, [], out⟩)
  | scanOwn {T tb ws row rest out bw} (hb : latestBuffered ws tb row.pk = some bw) :
      Steps m (.scanRow T tb ws (row :: rest) out) m
        (.more (.scanRow T tb ws rest (if bw.isDelete then out else out ++ [(row.pk, bw.value)])))
  | scanLate {T tb ws row rest out} :
      Steps m (.scanRow T tb ws (row :: rest) out) m (.done (.of .txnInactive))
  | scanRow {T tb ws row rest out t} (hb : latestBuffered ws tb row.pk = none)
      (ht : m.txns T = some t) (hact : t.state = .active) :
      Steps m (.scanRow T tb ws (row :: rest) out)
        (m.setTxn T (some { t with readSet := t.readSet ++ [⟨tb, row.pk, row.writeTs⟩] }))
        (.more (.scanRow T tb ws rest (out ++ [(row.pk, row.value)])))
  | acquired {T w} (h : (m.lockMgr.acquire w.lockKey T).2 = true) :
      Steps m (.acquire T w) { m with lockMgr := (m.lockMgr.acquire w.lockKey T).1 }
        (.more (.buffer T w))
  | queued {T w} : Steps m (.acquire T w)
      { m with lockMgr := (m.lockMgr.acquire w.lockKey T).1 } (.more (.wait T w))
  | lastLook {T w} (h : (m.lockMgr.timeout w.lockKey T).2 = true) :
      Steps m (.wait T w) { m with lockMgr := (m.lockMgr.timeout w.lockKey T).1 }
        (.more (.buffer T w))
  | gaveUp {T w} : Steps m (.wait T w)
      { m with lockMgr := (m.lockMgr.timeout w.lockKey T).1 } (.more (.abort T .lockTimeout))
  | woken {T w l} (h : m.lockMgr.wake w.lockKey T = some l) :
      Steps m (.wait T w) { m with lockMgr := l } (.more (.buffer T w))
  | bufferUnknown {T w} (ht : m.txns T = none) :
      Steps m (.buffer T w) m (.more (.releaseAll T .unknownTxn))
  | bufferInactive {T w t} (ht : m.txns T = some t) (hact : t.state ≠ .active) :
      Steps m (.buffer T w) m (.more (.releaseAll T .txnNotActive))
  | buffer {T w t} (ht : m.txns T = some t) (hact : t.state = .active) :
      Steps m (.buffer T w)
        ((m.setTxn T (some { t with
          lockedKeys := t.lockedKeys ++ [(w.tableId, w.key)]
          writeSet := t.writeSet ++ [w] })).log T w.record) (.done (.of .ok))
  | prepareRefused {T ts e} (h : checkActive m T = .error e) :
      Steps m (.prepare T ts) m (.done (.of e))
  | prepare {T ts t} (ht : m.txns T = some t) (hact : t.state = .active)
      (hv : validateReadSet m.store t ts = true) : Steps m (.prepare T ts)
        ((m.setTxn T (some { t with state := .prepared, prepareCommitTs := ts })).log T
          (.prepare, WAL.serializePreparePayload ts)) (.done (.of .ok))
  | invalid {T ts t} (ht : m.txns T = some t) (hact : t.state = .active) :
      Steps m (.prepare T ts) (m.setTxn T none)
        (.more (.abortLog T .readValidationFailed))
  | commitUnknown {T ts} : Steps m (.commit T ts) m (.done (.of .unknownTxn))
  | commitUnprepared {T ts} : Steps m (.commit T ts) m (.done (.of .txnNotPrepared))
  | commit {T ts t} (ht : m.txns T = some t) (hp : t.state = .prepared) :
      Steps m (.commit T ts) (m.setTxn T none) (.more (.applyWrites T ts t.writeSet))
  | applyWrite {T ts w rest} : Steps m (.applyWrites T ts (w :: rest))
      { m with store := w.apply m.store ts } (.more (.applyWrites T ts rest))
  | commitLog {T ts} : Steps m (.applyWrites T ts [])
      (m.log T (.commit, WAL.serializeCommitPayload ts)) (.more (.releaseAll T .ok))
  | abortUnknown {T e} (ht : m.txns T = none) : Steps m (.abort T e) m (.done (.of e))
  | abort {T e t} (ht : m.txns T = some t) :
      Steps m (.abort T e) (m.setTxn T none) (.more (.abortLog T e))
  | abortLog {T e} :
      Steps m (.abortLog T e) (m.log T (.abort, [])) (.more (.releaseAll T e))
  | releaseAll {T e} : Steps m (.releaseAll T e)
      { m with lockMgr := (m.lockMgr.takeAll T).1 }
      (.more (.releaseKeys T (m.lockMgr.takeAll T).2 e))
  | releaseKeys {T keys e} : Steps m (.releaseKeys T keys e)
      { m with lockMgr := m.lockMgr.releaseKeys T keys } (.done (.of e))
  | importPreparedTxn {s c ws} : Steps m (.importPreparedTxn s c ws)
      { m with nextTxnId := m.nextTxnId + 1 }
      (.more (.importLog m.nextTxnId s c ws (importRecords s c ws)))
  | importLog {T s c ws r rest} : Steps m (.importLog T s c ws (r :: rest)) (m.log T r)
      (.more (.importLog T s c ws rest))
  | importInsert {T s c ws} : Steps m (.importLog T s c ws [])
      (m.setTxn T (some ⟨T, s, c, .prepared, ws, [], []⟩)) (.done ⟨.ok, some T, [], []⟩)

/-- **Every step of a call is one of these.** -/
theorem Call.steps {m m' : TxnManager} {timedOut : Bool} {c : Call} {o : Outcome}
    (hs : c.step m timedOut = some (m', o)) : c.Steps m m' o := by
  cases c with
  | read T tb k =>
    simp only [Call.step] at hs
    split at hs
    · rename_i hk
      cases hs
      exact .readRefused hk
    · rename_i hk
      split at hs
      · rename_i hb
        cases hs
        exact .readOwn (checkActive_ok hk).1 hb
      · rename_i hb
        cases hs
        exact .read (checkActive_ok hk).1 hb
  | readStore T tb k ts =>
    simp only [Call.step] at hs
    split at hs
    · rename_i hg
      cases hs
      exact .readMissing hg
    · rename_i hg
      cases hs
      exact .readFound hg
  | readRecord T tb k v vts =>
    simp only [Call.step] at hs
    split at hs
    · cases hs
      exact .recordLate
    · rename_i hr
      cases hs
      obtain ⟨t, ht, hact, rfl⟩ := recordRead_some hr
      exact .record ht hact
  | scan T r =>
    simp only [Call.step] at hs
    split at hs
    · rename_i hk
      cases hs
      exact .scanRefused hk
    · rename_i hk
      cases hs
      exact .scan (checkActive_ok hk).1
  | scanRow T tb ws rest out =>
    cases rest with
    | nil => cases hs; exact .scanEnd
    | cons row rest =>
      simp only [Call.step] at hs
      split at hs
      · rename_i hb
        cases hs
        exact .scanOwn hb
      · rename_i hb
        split at hs
        · cases hs
          exact .scanLate
        · rename_i hr
          cases hs
          obtain ⟨t, ht, hact, rfl⟩ := recordRead_some hr
          exact .scanRow hb ht hact
  | acquire T w =>
    cases hs
    split_ifs with hgot
    · exact .acquired hgot
    · exact .queued
  | wait T w =>
    simp only [Call.step] at hs
    split_ifs at hs with htime hgot
    · cases hs
      exact .lastLook hgot
    · cases hs
      exact .gaveUp
    · obtain ⟨l, hl, heq⟩ := Option.map_eq_some_iff.mp hs
      cases heq
      exact .woken hl
  | buffer T w =>
    simp only [Call.step] at hs
    split at hs
    · rename_i ht
      cases hs
      exact .bufferUnknown ht
    · rename_i ht
      split_ifs at hs with hact
      · cases hs
        exact .bufferInactive ht hact
      · cases hs
        exact .buffer ht (not_not.mp hact)
  | prepare T ts =>
    simp only [Call.step] at hs
    split at hs
    · rename_i hk
      cases hs
      exact .prepareRefused hk
    · rename_i hk
      obtain ⟨ht, hact⟩ := checkActive_ok hk
      split_ifs at hs with hv
      · cases hs
        exact .prepare ht hact hv
      · cases hs
        exact .invalid ht hact
  | commit T ts =>
    simp only [Call.step] at hs
    split at hs
    · cases hs
      exact .commitUnknown
    · rename_i ht
      split_ifs at hs with hp
      · cases hs
        exact .commitUnprepared
      · cases hs
        exact .commit ht (not_not.mp hp)
  | applyWrites T ts rest =>
    cases rest with
    | nil => cases hs; exact .commitLog
    | cons w rest => cases hs; exact .applyWrite
  | abort T e =>
    simp only [Call.step] at hs
    split at hs
    · rename_i ht
      cases hs
      exact .abortUnknown ht
    · rename_i ht
      cases hs
      exact .abort ht
  | importLog T s c ws rest =>
    cases rest with
    | nil => cases hs; exact .importInsert
    | cons r rest => cases hs; exact .importLog
  | _ =>
    cases hs
    constructor

end TransDb.Txn
