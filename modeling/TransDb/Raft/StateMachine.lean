import TransDb.Raft.Log
import TransDb.Txn.Manager

/-!
# The replicated state machine

The model of `RaftStateMachine` (`src/raft/raft_state_machine.cpp`) on top of one
`TxnManager`.  `Apply` runs on the Raft thread of its node while the handlers of the
shard call the same manager, so it is cut like the calls of the manager are.

* `packPrepareBatchPayload`, … , `unpackPrepareBatchPayload`, … — the payloads of the
  log entries, as bytes; `unpackPrepareBatchPayload_pack` is the round trip, and
  `unpack_packed_or_cut` says what becomes of a payload that was cut.
* `Command` — what `Apply` reads in an entry.
* `Replica` — manager, maps and the number of entries applied.
* `Replica.call` — a step of a call of the manager, on behalf of one transaction.
* `Replica.applyStep` — a step of `Apply`.
-/

namespace TransDb.Raft

open List Function Storage Txn

/-- The id that a transaction has on all shards. -/
abbrev RaftTxnId := UInt64

/-! ## Payloads -/

/-- `PackTxnPayload`. -/
def packTxnPayload (walPayload : Bytes) (raftTxnId : RaftTxnId) : Bytes :=
  walPayload ++ WAL.le64 raftTxnId

/-- `PackAbortPayload`. -/
def packAbortPayload (raftTxnId : RaftTxnId) : Bytes := WAL.le64 raftTxnId

/-- One write of a batch. -/
def packWrite (w : BufferedWrite) : Bytes :=
  (if w.isDelete then 1 else 0) :: (WAL.le32 w.tableId.toNat ++ (WAL.le32 w.key.length ++
    (w.key ++ (WAL.le32 w.value.length ++ w.value))))

/-- `PackPrepareBatchPayload`. -/
def packPrepareBatchPayload (raftTxnId : RaftTxnId) (snapshotTs commitTs : Timestamp)
    (writes : List BufferedWrite) : Bytes :=
  WAL.le64 raftTxnId ++ (WAL.le64 snapshotTs ++ (WAL.le64 commitTs ++
    (WAL.le32 writes.length ++ writes.flatMap packWrite)))

/-- Eight bytes as a number. -/
def readLe64 (data : Bytes) : UInt64 := UInt64.ofNat (leNat data)

/-- `UnpackPayload`. -/
def unpackPayload (payload : Bytes) : Option (Bytes × RaftTxnId) :=
  if payload.length < 8 then none
  else some (payload.take (payload.length - 8), readLe64 (payload.drop (payload.length - 8)))

/-- One turn of the loop of `UnpackPrepareBatchPayload`: a write, and what follows it. -/
def unpackWrite : Bytes → Option (BufferedWrite × Bytes)
  | [] => none
  | b :: data => do
    let (tid, pv) ← WAL.consumeLe32 data
    let (klen, pv) ← WAL.consumeLe32 pv
    if pv.length < klen then none else
    let key := pv.take klen
    let (vlen, pv) ← WAL.consumeLe32 (pv.drop klen)
    if pv.length < vlen then none else
    some (⟨UInt32.ofNat tid, key, pv.take vlen, decide (b ≠ 0)⟩, pv.drop vlen)

/-- The loop over the writes. -/
def unpackWrites : ℕ → Bytes → Option (List BufferedWrite)
  | 0, _ => some []
  | n + 1, data =>
    match unpackWrite data with
    | none => none
    | some (w, rest) => (unpackWrites n rest).map (w :: ·)

/-- A transaction to prepare. -/
structure PrepareBatch where
  raftTxnId : RaftTxnId
  snapshotTs : Timestamp
  commitTs : Timestamp
  writes : List BufferedWrite
  deriving DecidableEq

/-- Bytes after the last write are not looked at. -/
def unpackPrepareBatchPayload (payload : Bytes) : Option PrepareBatch := do
  let (raftTxnId, pv) ← WAL.consumeLe64 payload
  let (snapshotTs, pv) ← WAL.consumeLe64 pv
  let (commitTs, pv) ← WAL.consumeLe64 pv
  let (n, pv) ← WAL.consumeLe32 pv
  let writes ← unpackWrites n pv
  some ⟨raftTxnId, snapshotTs, commitTs, writes⟩

/-- Lengths and counts that the 32 bits of a batch can hold. -/
def Fits (writes : List BufferedWrite) : Prop :=
  writes.length < 2 ^ 32 ∧ ∀ w ∈ writes, w.key.length < 2 ^ 32 ∧ w.value.length < 2 ^ 32

instance (writes : List BufferedWrite) : Decidable (Fits writes) := by
  unfold Fits
  exact inferInstance

theorem readLe64_le64 (n : UInt64) : readLe64 (WAL.le64 n) = n := by
  simp [readLe64, WAL.le64, leNat_leBytes]

theorem unpackPayload_pack (p : Bytes) (T : RaftTxnId) :
    unpackPayload (packTxnPayload p T) = some (p, T) := by
  have hlen : (packTxnPayload p T).length = p.length + 8 := by simp [packTxnPayload, WAL.le64]
  rw [unpackPayload, if_neg (by omega), hlen, Nat.add_sub_cancel, packTxnPayload,
    take_left' rfl, drop_left' rfl, readLe64_le64]

variable {ws : List BufferedWrite} {w : BufferedWrite}

/-- Any byte but zero stands for a delete. -/
theorem unpackWrite_cons (hk : w.key.length < 2 ^ 32)
    (hv : w.value.length < 2 ^ 32) {b : UInt8} (hb : decide (b ≠ 0) = w.isDelete) (rest : Bytes) :
    unpackWrite (b :: ((packWrite w).tail ++ rest)) = some (w, rest) := by
  simp only [packWrite, tail_cons, append_assoc, unpackWrite,
    WAL.consumeLe32_le32 w.tableId.toNat_lt, WAL.consumeLe32_le32 hk, WAL.consumeLe32_le32 hv,
    Option.bind_eq_bind, Option.bind_some, take_left' rfl, drop_left' rfl, hb,
    UInt32.ofNat_toNat]
  rw [if_neg (by simp), if_neg (by simp)]

theorem unpackWrite_pack (hk : w.key.length < 2 ^ 32)
    (hv : w.value.length < 2 ^ 32) (rest : Bytes) :
    unpackWrite (packWrite w ++ rest) = some (w, rest) :=
  unpackWrite_cons hk hv (by cases w.isDelete <;> decide) rest

theorem unpackWrites_pack (ws : List BufferedWrite)
    (h : ∀ w ∈ ws, w.key.length < 2 ^ 32 ∧ w.value.length < 2 ^ 32) (rest : Bytes) :
    unpackWrites ws.length (ws.flatMap packWrite ++ rest) = some ws := by
  induction ws with
  | nil => rfl
  | cons w ws ih =>
    obtain ⟨hk, hv⟩ := h w mem_cons_self
    rw [flatMap_cons, append_assoc, length_cons, unpackWrites, unpackWrite_pack hk hv]
    simp only [ih fun w' hw' => h w' (mem_cons_of_mem _ hw')]
    rfl

/-- **What was packed is unpacked**, if the lengths fit. -/
theorem unpackPrepareBatchPayload_pack (T : RaftTxnId) (snapshotTs commitTs : Timestamp)
    (h : Fits ws) :
    unpackPrepareBatchPayload (packPrepareBatchPayload T snapshotTs commitTs ws) =
      some ⟨T, snapshotTs, commitTs, ws⟩ := by
  have hws := unpackWrites_pack ws h.2 []
  rw [append_nil] at hws
  simp only [packPrepareBatchPayload, unpackPrepareBatchPayload, WAL.consumeLe64_le64,
    WAL.consumeLe32_le32 h.1, Option.bind_eq_bind, Option.bind_some, hws]

/-! ### Payloads that were cut -/

theorem eq_of_unpackWrite {data rest : Bytes}
    (h : unpackWrite data = some (w, rest)) : w.key.length < 2 ^ 32 ∧ w.value.length < 2 ^ 32 ∧
      ∃ b : UInt8, decide (b ≠ 0) = w.isDelete ∧ data = b :: ((packWrite w).tail ++ rest) := by
  cases data with
  | nil => cases h
  | cons b data =>
    obtain ⟨⟨tid, pv₁⟩, h₁, hread⟩ := Option.bind_eq_some_iff.mp h
    obtain ⟨⟨klen, pv₂⟩, h₂, hrest⟩ := Option.bind_eq_some_iff.mp hread
    obtain ⟨htid, rfl⟩ := WAL.eq_of_consumeLe32 h₁
    obtain ⟨hk, rfl⟩ := WAL.eq_of_consumeLe32 h₂
    dsimp only at hrest
    split_ifs at hrest with hkey
    obtain ⟨⟨vlen, pv₃⟩, h₃, hlast⟩ := Option.bind_eq_some_iff.mp hrest
    obtain ⟨hv, hdrop⟩ := WAL.eq_of_consumeLe32 h₃
    dsimp only at hlast
    split_ifs at hlast with hvalue
    obtain ⟨rfl, rfl⟩ := Prod.mk.inj (Option.some.inj hlast)
    have hklen : (pv₂.take klen).length = klen := length_take_of_le (Nat.not_lt.mp hkey)
    have hvlen : (pv₃.take vlen).length = vlen := length_take_of_le (Nat.not_lt.mp hvalue)
    refine ⟨by rwa [hklen], by rwa [hvlen], b, rfl, ?_⟩
    simp only [packWrite, tail_cons, append_assoc, hklen, hvlen, take_append_drop, ← hdrop,
      UInt32.toNat_ofNat_of_lt' htid]

/-- What has been read does not depend on what follows. -/
theorem unpackWrites_append {n : ℕ} {data : Bytes} (h : unpackWrites n data = some ws) :
    (ws.flatMap packWrite).length ≤ data.length ∧
      ∀ more, unpackWrites n (data ++ more) = some ws := by
  induction n generalizing data ws with
  | zero =>
    obtain rfl := Option.some.inj h
    exact ⟨Nat.zero_le _, fun _ => rfl⟩
  | succ n ih =>
    unfold unpackWrites at h
    split at h
    · cases h
    · next w rest hw =>
      obtain ⟨ws', hws, rfl⟩ := Option.map_eq_some_iff.mp h
      obtain ⟨hlen, hmore⟩ := ih hws
      obtain ⟨hk, hv, b, hb, rfl⟩ := eq_of_unpackWrite hw
      constructor
      · simp only [flatMap_cons, length_append, length_cons, packWrite, tail_cons]
        omega
      · intro more
        rw [cons_append, append_assoc, unpackWrites, unpackWrite_cons hk hv hb]
        simp only [hmore more, Option.map_some]

theorem unpackPrepareBatchPayload_append {data : Bytes} {b : PrepareBatch}
    (h : unpackPrepareBatchPayload data = some b) :
    (packPrepareBatchPayload b.raftTxnId b.snapshotTs b.commitTs b.writes).length ≤ data.length ∧
      ∀ more, unpackPrepareBatchPayload (data ++ more) = some b := by
  obtain ⟨⟨T, pv₁⟩, h₁, hread⟩ := Option.bind_eq_some_iff.mp h
  obtain ⟨⟨snapshotTs, pv₂⟩, h₂, hread⟩ := Option.bind_eq_some_iff.mp hread
  obtain ⟨⟨commitTs, pv₃⟩, h₃, hread⟩ := Option.bind_eq_some_iff.mp hread
  obtain ⟨⟨n, pv₄⟩, h₄, hread⟩ := Option.bind_eq_some_iff.mp hread
  obtain ⟨ws, hws, hb⟩ := Option.bind_eq_some_iff.mp hread
  obtain ⟨hlen, hmore⟩ := unpackWrites_append hws
  obtain rfl := Option.some.inj hb
  obtain rfl := WAL.eq_of_consumeLe64 h₁
  obtain rfl := WAL.eq_of_consumeLe64 h₂
  obtain rfl := WAL.eq_of_consumeLe64 h₃
  obtain ⟨hn, rfl⟩ := WAL.eq_of_consumeLe32 h₄
  constructor
  · simp only [packPrepareBatchPayload, length_append, WAL.le32, WAL.le64, length_leBytes]
    omega
  · intro more
    simp only [append_assoc, unpackPrepareBatchPayload, WAL.consumeLe64_le64,
      WAL.consumeLe32_le32 hn, Option.bind_eq_bind, Option.bind_some, hmore more]

/-- **The payloads of the log are read back as they were packed**, and a batch of which any bytes
are missing at the end is not read at all. -/
theorem unpack_packed_or_cut (T : RaftTxnId) (snapshotTs commitTs : Timestamp)
    (ws : List BufferedWrite) (h : Fits ws) :
    unpackPrepareBatchPayload (packPrepareBatchPayload T snapshotTs commitTs ws) =
        some ⟨T, snapshotTs, commitTs, ws⟩ ∧
      (∀ data, data <+: packPrepareBatchPayload T snapshotTs commitTs ws →
        data ≠ packPrepareBatchPayload T snapshotTs commitTs ws →
        unpackPrepareBatchPayload data = none) ∧
      ∀ p id, unpackPayload (packTxnPayload p id) = some (p, id) := by
  have hwhole := unpackPrepareBatchPayload_pack T snapshotTs commitTs h
  refine ⟨hwhole, ?_, unpackPayload_pack⟩
  intro data hprefix hne
  cases hdata : unpackPrepareBatchPayload data with
  | none => rfl
  | some b =>
    -- the whole would be read as `b` too, and `b` takes no more bytes than `data` has
    obtain ⟨more, hmore⟩ := hprefix
    obtain ⟨hlen, happend⟩ := unpackPrepareBatchPayload_append hdata
    have hb := happend more
    rw [hmore, hwhole] at hb
    obtain rfl := Option.some.inj hb
    exact absurd (IsPrefix.eq_of_length_le ⟨more, hmore⟩ hlen) hne

/-- A write and a delete. -/
theorem unpack_packed_or_cut_two :
    let ws : List BufferedWrite := [⟨1, [7], [0, 255], false⟩, ⟨2, [], [], true⟩]
    (packPrepareBatchPayload 5 3 4 ws).length = 57 ∧
      ∀ n < 57, unpackPrepareBatchPayload ((packPrepareBatchPayload 5 3 4 ws).take n) = none := by
  refine ⟨rfl, fun n hn => ?_⟩
  have hcut := take_prefix n (packPrepareBatchPayload 5 3 4
    [⟨1, [7], [0, 255], false⟩, ⟨2, [], [], true⟩])
  refine (unpack_packed_or_cut 5 3 4 _ (by decide)).2.1 _ hcut ?_
  intro heq
  have hlen := congrArg length heq
  rw [length_take] at hlen
  exact absurd hlen (by simp [packPrepareBatchPayload, packWrite, WAL.le32, WAL.le64]; omega)

/-! ## Commands -/

/-- What `Apply` reads in an entry. -/
inductive Command where
  | skip
  | abort (raftTxnId : RaftTxnId)
  | prepareBatch (b : PrepareBatch)
  | begin (raftTxnId : RaftTxnId) (snapshotTs : Timestamp)
  | write (raftTxnId : RaftTxnId) (w : BufferedWrite)
  | badPrepare (raftTxnId : RaftTxnId)
  | prepare (raftTxnId : RaftTxnId) (commitTs : Timestamp)
  | commit (raftTxnId : RaftTxnId) (commitTs : Timestamp)
  deriving DecidableEq

/-- Entries with the payload of a WAL record and an id. -/
def walCommand (type : RaftEntryType) (wal : Bytes) (T : RaftTxnId) : Command :=
  match type with
  | .txnBegin =>
    match WAL.deserializeBeginPayload wal with
    | some ts => .begin T ts
    | none => .skip
  | .txnWrite =>
    match WAL.deserializeWritePayload wal with
    | some wi => .write T ⟨wi.tableId, wi.key, wi.value, false⟩
    | none => .skip
  | .txnDelete =>
    match WAL.deserializeDeletePayload wal with
    | some di => .write T ⟨di.tableId, di.key, [], true⟩
    | none => .skip
  | .txnPrepare =>
    match WAL.deserializePreparePayload wal with
    | some ts => .prepare T ts
    | none => .badPrepare T
  | .txnCommit =>
    match WAL.deserializeCommitPayload wal with
    | some ts => .commit T ts
    | none => .skip
  | _ => .skip

/-- What an entry asks for. -/
def RaftLogEntry.command (e : RaftLogEntry) : Command :=
  match e.type with
  | .noop => .skip
  | .txnAbort => if e.payload.length ≠ 8 then .skip else .abort (readLe64 e.payload)
  | .txnPrepareBatch =>
    match unpackPrepareBatchPayload e.payload with
    | some b => .prepareBatch b
    | none => .skip
  | type =>
    match unpackPayload e.payload with
    | some (wal, T) => walCommand type wal T
    | none => .skip

theorem command_noop (ix term : ℕ) (payload : Bytes) :
    (RaftLogEntry.mk ix term .noop payload).command = .skip := rfl

theorem command_abort (ix term : ℕ) (T : RaftTxnId) :
    (RaftLogEntry.mk ix term .txnAbort (packAbortPayload T)).command = .abort T := by
  have hlen : (WAL.le64 T).length = 8 := length_leBytes 8 _
  simp only [RaftLogEntry.command, packAbortPayload, readLe64_le64, hlen, ne_eq, not_true_eq_false,
    if_false]

theorem command_commit (ix term : ℕ) (T : RaftTxnId) (ts : Timestamp) :
    (RaftLogEntry.mk ix term .txnCommit
      (packTxnPayload (WAL.serializeCommitPayload ts) T)).command = .commit T ts := by
  simp only [RaftLogEntry.command, unpackPayload_pack, walCommand,
    WAL.deserializeCommitPayload_serialize]

theorem command_prepareBatch (ix term : ℕ) (T : RaftTxnId) (snapshotTs commitTs : Timestamp)
    (h : Fits ws) :
    (RaftLogEntry.mk ix term .txnPrepareBatch
      (packPrepareBatchPayload T snapshotTs commitTs ws)).command =
      .prepareBatch ⟨T, snapshotTs, commitTs, ws⟩ := by
  simp only [RaftLogEntry.command, unpackPrepareBatchPayload_pack T snapshotTs commitTs h]

/-! ## Replicas -/

/-- How a `Prepare` went. -/
structure PrepareResult where
  success : Bool
  error : String
  deriving DecidableEq

/-- The maps of the state machine. -/
structure RaftStateMachine where
  txnIdMap : RaftTxnId → Option TxnId
  prepareResults : RaftTxnId → Option PrepareResult

/-- What is left to do in `Apply` when its call of the manager returns. -/
inductive ApplyEnd where
  | begun
  | kept
  | imported
  | prepared (localTxnId : TxnId)
  | failed
  | decided
  deriving DecidableEq

/-- Where the Raft thread stands inside `Apply`. -/
inductive Applying where
  | entry (e : RaftLogEntry)
  | run (raftTxnId : RaftTxnId) (c : Call) (next : ApplyEnd)
  | setImported (raftTxnId : RaftTxnId) (localTxnId : TxnId)
  | setPrepared (raftTxnId : RaftTxnId) (localTxnId : TxnId) (status : Status)

/-- `Apply` holds the mutex of the state machine.  It does so in all its calls of the
manager but `ImportPreparedTxn` and `Prepare`. -/
def Applying.holdsMutex : Applying → Bool
  | .run _ _ .imported => false
  | .run _ _ (.prepared _) => false
  | .run _ _ _ => true
  | _ => false

/-- The call of the manager that `Apply` is in. -/
def Applying.inCall : Applying → Option Call
  | .run _ c _ => some c
  | _ => none

/-- The transaction manager and the state machine of one replica. -/
structure Replica where
  mgr : TxnManager
  sm : RaftStateMachine
  lastApplied : ℕ
  applying : Option Applying
  /-- For every local transaction the one it was begun or imported for. -/
  begunFor : TxnId → Option RaftTxnId
  /-- What each entry of the log has put into the store. -/
  puts : ℕ → List (Timestamp × BufferedWrite)

namespace RaftStateMachine

/-- Nothing is applied. -/
def empty : RaftStateMachine := ⟨fun _ => none, fun _ => none⟩

/-- The id 0 says that there is none. -/
def getLocalTxnId (sm : RaftStateMachine) (T : RaftTxnId) : TxnId := (sm.txnIdMap T).getD 0

/-- `IsTxnPrepared`. -/
def isTxnPrepared (sm : RaftStateMachine) (T : RaftTxnId) : Bool :=
  match sm.prepareResults T with
  | some pr => pr.success
  | none => false

/-- `RegisterLocalTxn`. -/
def registerLocalTxn (sm : RaftStateMachine) (T : RaftTxnId) (l : TxnId) : RaftStateMachine :=
  { sm with txnIdMap := update sm.txnIdMap T (some l) }

/-- How a `Prepare` went is noted. -/
def setPrepareResult (sm : RaftStateMachine) (T : RaftTxnId) (pr : Option PrepareResult) :
    RaftStateMachine :=
  { sm with prepareResults := update sm.prepareResults T pr }

/-- A transaction is dropped. -/
def eraseTxn (sm : RaftStateMachine) (T : RaftTxnId) : RaftStateMachine :=
  { sm with txnIdMap := update sm.txnIdMap T none }

/-- `ForgetTxn`. -/
def forgetTxn (sm : RaftStateMachine) (T : RaftTxnId) : RaftStateMachine :=
  (sm.eraseTxn T).setPrepareResult T none

end RaftStateMachine

namespace Replica

/-- A new replica. -/
def empty : Replica := ⟨.empty, .empty, 0, none, fun _ => none, fun _ => []⟩

/-- The call of the manager that the Raft thread is in. -/
def inCall (R : Replica) : Option Call := R.applying.bind Applying.inCall

/-- The mutex of the state machine is free. -/
def mutexFree (R : Replica) : Bool :=
  match R.applying with
  | some a => !a.holdsMutex
  | none => true

/-- The transaction for which a call has just returned a new local one. -/
def noteBegun (begunFor : TxnId → Option RaftTxnId) (T : RaftTxnId) :
    Outcome → TxnId → Option RaftTxnId
  | .done r =>
    match r.txnId with
    | some l => update begunFor l (some T)
    | none => begunFor
  | .more _ => begunFor

/-- One step of a call of the manager, on behalf of a transaction. -/
def call (R : Replica) (T : RaftTxnId) (c : Call) (timedOut : Bool) : Option (Replica × Outcome) :=
  (c.step R.mgr timedOut).map fun r =>
    ({ R with mgr := r.1, begunFor := noteBegun R.begunFor T r.2 }, r.2)

/-- `Apply` is done with the entry. -/
def finish (R : Replica) (sm : RaftStateMachine) : Replica :=
  { R with sm := sm, lastApplied := R.lastApplied + 1, applying := none }

/-- `Apply` calls the manager. -/
def enterCall (R : Replica) (T : RaftTxnId) (op : Op) (next : ApplyEnd) : Replica :=
  { R with applying := some (.run T op.entry next) }

/-- The first part of `Apply`. -/
def applyCommand (R : Replica) : Command → Replica
  | .skip => R.finish R.sm
  | .abort T =>
    match R.sm.txnIdMap T with
    | none => R.finish R.sm
    | some l => R.enterCall T (.abort l) .decided
  | .prepareBatch b =>
    match R.sm.txnIdMap b.raftTxnId with
    | some _ => R.finish (R.sm.setPrepareResult b.raftTxnId (some ⟨true, ""⟩))
    | none => R.enterCall b.raftTxnId (.importPreparedTxn b.snapshotTs b.commitTs b.writes) .imported
  | .begin T ts => R.enterCall T (.begin ts) .begun
  | .write T w =>
    match R.sm.txnIdMap T with
    | none => R.finish R.sm
    | some l =>
      R.enterCall T
        (if w.isDelete then .delete l w.tableId w.key else .write l w.tableId w.key w.value) .kept
  | .badPrepare T => R.finish (R.sm.setPrepareResult T (some ⟨false, "bad prepare payload"⟩))
  | .prepare T ts =>
    match R.sm.txnIdMap T with
    | none => R.finish (R.sm.setPrepareResult T (some ⟨false, "unknown txn"⟩))
    | some l => R.enterCall T (.prepare l ts) (.prepared l)
  | .commit T ts =>
    match R.sm.txnIdMap T with
    | none => R.finish R.sm
    | some l => R.enterCall T (.commit l ts) .decided

/-- The part of `Apply` after its call of the manager has returned. -/
def applyReturn (R : Replica) (T : RaftTxnId) (r : Reply) : ApplyEnd → Replica
  | .begun => R.finish (R.sm.registerLocalTxn T (r.txnId.getD 0))
  | .kept => R.finish R.sm
  | .imported => { R with applying := some (.setImported T (r.txnId.getD 0)) }
  | .prepared l => { R with applying := some (.setPrepared T l r.status) }
  | .failed => R.finish (R.sm.eraseTxn T)
  | .decided => R.finish (R.sm.forgetTxn T)

/-- The write that a step of a call puts into the store. -/
def notePut (puts : ℕ → List (Timestamp × BufferedWrite)) (ix : ℕ) :
    Call → ℕ → List (Timestamp × BufferedWrite)
  | .applyWrites _ ts (w :: _) => update puts ix (puts ix ++ [(ts, w)])
  | _ => puts

/-- One step of `Apply`. -/
def applyStep (R : Replica) (timedOut : Bool) : Applying → Option Replica
  | .entry e => some (R.applyCommand e.command)
  | .run T c next =>
    match R.call T c timedOut with
    | none => none
    | some (R', .more c') =>
      some { R' with applying := some (.run T c' next), puts := notePut R.puts R.lastApplied c }
    | some (R', .done r) => some (R'.applyReturn T r next)
  | .setImported T l =>
    some (R.finish ((R.sm.registerLocalTxn T l).setPrepareResult T (some ⟨true, ""⟩)))
  | .setPrepared T l st =>
    let sm := R.sm.setPrepareResult T (some ⟨decide (st.code = .ok), st.message⟩)
    if st.code = .ok then some (R.finish sm)
    else some { R with sm := sm, applying := some (.run T (Op.abort l).entry .failed) }

end Replica

end TransDb.Raft
