import TransDb.Txn.Applied
import TransDb.Txn.Threads

/-!
# Clients with a timestamp counter

Clients that drive their transactions one call at a time and draw all timestamps from
one counter: a snapshot before `Begin`, and a commit timestamp after the last write has
returned, for both `Prepare` and `Commit`.

* `clients` — the machine: the threads under these rules, and the draws.
* `Threads.committed`, `foundReads` — the committed transactions and what their reads
  found, as the clients saw it.
* `Threads.SerialRead` — a read returned what it would have returned if the committed
  transactions had run one after the other in the order of their timestamps.
* `Clients.orderly` — the condition under which all reads do.
-/

namespace TransDb.Txn

open Function

open Storage

/-! ## What the clients have seen -/

/-- The write of a transaction that an event reports as done. -/
def Event.ownWrite (txnId : TxnId) : Event → List BufferedWrite
  | .called _ _ => []
  | .returned _ op r =>
    match op.asWrite with
    | some (t, w) => if t = txnId ∧ r.status = .ok then [w] else []
    | none => []

/-- The writes of a transaction that have returned, the first one first. -/
def ownWrites (txnId : TxnId) : List Event → List BufferedWrite
  | [] => []
  | e :: earlier => ownWrites txnId earlier ++ e.ownWrite txnId

/-- A row that a read found, with the writes of the reader before it. -/
structure FoundRead where
  own : List BufferedWrite
  tableId : TableId
  key : Bytes
  value : Bytes
  deriving DecidableEq

/-- The rows of a transaction that an event reports as found. -/
def Event.found (txnId : TxnId) (own : List BufferedWrite) : Event → List FoundRead
  | .returned _ (.read t tb k) r =>
    if t = txnId ∧ r.status = .ok then [⟨own, tb, k, r.value⟩] else []
  | .returned _ (.scan t range) r =>
    if t = txnId ∧ r.status = .ok then r.rows.map fun row => ⟨own, range.tableId, row.1, row.2⟩
    else []
  | _ => []

/-- What a transaction has read. -/
def foundReads (txnId : TxnId) : List Event → List FoundRead
  | [] => []
  | e :: earlier => e.found txnId (ownWrites txnId earlier) ++ foundReads txnId earlier

namespace Threads

/-- The commits in progress: transaction, timestamp and the writes still to be put. -/
def inProgress (s : Threads) : List (TxnId × Timestamp × List BufferedWrite) :=
  s.history.filterMap fun e =>
    match e with
    | .called th _ =>
      match s.pcs th with
      | some (.applyWrites t ts rest) => some (t, ts, rest)
      | _ => none
    | _ => none

/-- The committed transactions and their timestamps: those with a `COMMIT` record, and
those whose commit is in progress. -/
def committed (s : Threads) : List (TxnId × Timestamp) :=
  (s.mgr.wal.records.filterMap fun r =>
    if r.type = .commit then (WAL.deserializeCommitPayload r.payload).map fun ts => (r.txnId, ts)
    else none) ++
  s.inProgress.map fun e => (e.1, e.2.1)

/-- The value that a transaction has for a row. -/
def wrote (s : Threads) (txnId : TxnId) (tableId : TableId) (key : Bytes) : Option Bytes :=
  (s.archive txnId).bind fun t => lastWrite t.writeSet tableId key

/-- A read of a transaction with commit timestamp `c` returned its own last write of the
row, or the value of the committed writer of the row with the largest timestamp below
`c`. -/
def SerialRead (s : Threads) (c : Timestamp) (x : FoundRead) : Prop :=
  match latestBuffered x.own x.tableId x.key with
  | some w => w.isDelete = false ∧ x.value = w.value
  | none => ∃ W ∈ s.committed, W.2 < c ∧ s.wrote W.1 x.tableId x.key = some x.value ∧
      ∀ W' ∈ s.committed, W'.2 < c → s.wrote W'.1 x.tableId x.key ≠ none → W'.2 ≤ W.2

instance (s : Threads) (c : Timestamp) (x : FoundRead) : Decidable (s.SerialRead c x) := by
  unfold SerialRead
  cases latestBuffered x.own x.tableId x.key <;> exact inferInstance

/-- The thread has begun this transaction. -/
def drives (s : Threads) (th : ThreadId) (txnId : TxnId) : Bool :=
  s.history.any fun e =>
    match e with
    | .returned th' _ r => decide (th' = th ∧ r.txnId = some txnId)
    | _ => false

end Threads

/-! ## The clients -/

/-- Threads and their clients. -/
structure Clients where
  threads : Threads
  /-- The next timestamp. -/
  clock : Timestamp
  /-- The snapshot a thread has drawn for its next transaction. -/
  snapshot : ThreadId → Option Timestamp
  /-- The commit timestamp that was drawn for a transaction. -/
  commitTs : TxnId → Option Timestamp

/-- What happens next. -/
inductive ClientAction where
  | drawSnapshot (th : ThreadId)
  | drawCommit (th : ThreadId) (txnId : TxnId)
  | act (a : ThreadAction)

namespace Clients

/-- No client has come yet. -/
def init : Clients := ⟨.init, 1, fun _ => none, fun _ => none⟩

/-- The calls that a client makes. -/
def permits (s : Clients) : ThreadAction → Bool
  | .step _ _ => true
  | .start th op =>
    match op with
    | .begin ts => decide (s.snapshot th = some ts)
    | .read t _ _ => s.threads.drives th t
    | .scan t _ => s.threads.drives th t
    | .write t _ _ _ => s.threads.drives th t && (s.commitTs t).isNone
    | .delete t _ _ => s.threads.drives th t && (s.commitTs t).isNone
    | .prepare t ts => s.threads.drives th t && decide (s.commitTs t = some ts)
    | .commit t ts => s.threads.drives th t && decide (s.commitTs t = some ts)
    | .abort t => s.threads.drives th t
    | .importPreparedTxn _ _ _ => false

/-- A snapshot is used once. -/
def useSnapshot (s : Clients) : ThreadAction → ThreadId → Option Timestamp
  | .start th (.begin _) => update s.snapshot th none
  | _ => s.snapshot

/-- One turn. -/
def step (s : Clients) : ClientAction → Option Clients
  | .drawSnapshot th =>
    if s.clock < s.clock + 1 then
      some { s with
        clock := s.clock + 1
        snapshot := update s.snapshot th (some s.clock) }
    else none
  | .drawCommit th t =>
    if s.clock < s.clock + 1 ∧ s.threads.drives th t = true ∧ (s.threads.calls th).isNone ∧
        s.commitTs t = none then
      some { s with
        clock := s.clock + 1
        commitTs := update s.commitTs t (some s.clock) }
    else none
  | .act a =>
    if s.permits a = true then
      (s.threads.step a).map fun threads => { s with threads := threads, snapshot := s.useSnapshot a }
    else none

end Clients

/-- The machine of the clients. -/
def clients : Machine Clients ClientAction := ⟨Clients.init, Clients.step⟩

/-! ## Calls of a client -/

/-- The steps of one call of a client, none of them timing out. -/
def clientCall (th : ThreadId) (op : Op) (steps : ℕ) : List ClientAction :=
  .act (.start th op) :: List.replicate steps (.act (.step th false))

/-- A transaction commits a row. -/
def commitRow : List ClientAction :=
  [.drawSnapshot 0] ++ clientCall 0 (.begin 1) 3 ++ clientCall 0 (.write 1 7 [1] [5]) 2 ++
    [.drawCommit 0 1] ++ clientCall 0 (.prepare 1 2) 1 ++ clientCall 0 (.commit 1 2) 5

/-! ## The condition -/

/-- A list of writes has one of the row. -/
def touches (writes : List BufferedWrite) (tableId : TableId) (key : Bytes) : Bool :=
  writes.any fun w => decide (w.tableId = tableId ∧ w.key = key)

namespace Clients

/-- No other transaction that has drawn a timestamp below `c` still has to put a row
that the transaction has read. -/
def noHiddenWriter (s : Clients) (txnId : TxnId) (c : Timestamp) : Bool :=
  match s.threads.mgr.txns txnId with
  | none => true
  | some t => t.readSet.all fun r =>
    ((List.range s.threads.mgr.nextTxnId).all fun W =>
      match s.threads.mgr.txns W, s.commitTs W with
      | some w, some cW => decide (W = txnId ∨ ¬ cW < c) || !touches w.writeSet r.tableId r.key
      | _, _ => true) &&
    s.threads.inProgress.all fun e => decide (¬ e.2.1 < c) || !touches e.2.2 r.tableId r.key

/-- No commit in progress will put this version of the row again. -/
def settled (s : Clients) (tableId : TableId) (key : Bytes) (ts : Timestamp) : Bool :=
  s.threads.inProgress.all fun e => decide (e.2.1 ≠ ts) || !touches e.2.2 tableId key

/-- The condition on the steps of a run: a transaction is validated when no writer below
its timestamp is still hidden, and reads find versions that are not put again. -/
def orderly (s : Clients) : ClientAction → Bool
  | .act (.step th _) =>
    match s.threads.pcs th with
    | some (.prepare t c) => s.noHiddenWriter t c
    | some (.readStore _ tb k ts) =>
      match MVCCStore.get s.threads.mgr.store tb k ts with
      | some (_, vts) => s.settled tb k vts
      | none => true
    | some (.scanStore _ range ts _) =>
      (MVCCStore.scan s.threads.mgr.store range ts).all fun row =>
        s.settled range.tableId row.pk row.writeTs
    | _ => true
  | _ => true

end Clients

end TransDb.Txn
