import Mathlib.Data.List.Dedup
import Mathlib.Data.List.Sort
import TransDb.Core.Machine
import TransDb.Txn.Applied

/-!
# Recovery

The model of `TxnManager::Recover`: the manager is rebuilt from the records of the
log, transaction by transaction, in the order of their last records.  Nothing else
runs meanwhile, so a lock that is not free stays so and its acquisition times out.

* `recover` — the whole function.
* `Recoverable` — what a log has to look like, given the last values of the
  transactions.
* `Restored` — what recovery is for: committed writes in the store, prepared
  transactions with their locks, fresh ids.
* `recover_ok` — **recovery of such a log succeeds and restores just that.**
-/

namespace TransDb.Txn

open List Function Storage

/-! ## The function -/

/-- `last_type` and `last_index`: the last record of each transaction. -/
def lastRecord (records : List WALRecord) : TxnId → Option (WALRecordType × ℕ) :=
  records.zipIdx.foldl (fun last e => update last e.1.txnId (some (e.1.type, e.2)))
    fun _ => none

/-- `max_txn_id`. -/
def maxTxnId (records : List WALRecord) : TxnId :=
  records.foldl (fun m r => max m r.txnId) 0

/-- `txn_order`: the transactions in the log by their last records. -/
def txnOrder (records : List WALRecord) : List TxnId :=
  let index := fun t => ((lastRecord records t).map Prod.snd).getD 0
  (records.map WALRecord.txnId).dedup.insertionSort fun a b => index a ≤ index b

/-- A payload that cannot be read. -/
def badPayload (kind : String) : Status :=
  ⟨.ioError, "bad WAL " ++ kind ++ " payload during recovery"⟩

/-- One record of a committed transaction. -/
def replayRecord (commitTs : Timestamp) (s : MVCCStore) (r : WALRecordType × Bytes) :
    Except Status MVCCStore :=
  match r.1 with
  | .write =>
    match WAL.deserializeWritePayload r.2 with
    | none => .error (badPayload "write")
    | some wi => .ok (MVCCStore.replayPut s wi.tableId wi.key commitTs wi.value)
  | .delete =>
    match WAL.deserializeDeletePayload r.2 with
    | none => .error (badPayload "delete")
    | some di => .ok (MVCCStore.replayPut s di.tableId di.key commitTs tombstone)
  | _ => .ok s

/-- One record of a prepared transaction. -/
def rebuildRecord (t : Transaction) (r : WALRecordType × Bytes) : Except Status Transaction :=
  match r.1 with
  | .begin =>
    match WAL.deserializeBeginPayload r.2 with
    | none => .error (badPayload "begin")
    | some ts => .ok { t with snapshotTs := ts }
  | .write =>
    match WAL.deserializeWritePayload r.2 with
    | none => .error (badPayload "write")
    | some wi => .ok { t with writeSet := t.writeSet ++ [⟨wi.tableId, wi.key, wi.value, false⟩] }
  | .delete =>
    match WAL.deserializeDeletePayload r.2 with
    | none => .error (badPayload "delete")
    | some di => .ok { t with writeSet := t.writeSet ++ [⟨di.tableId, di.key, [], true⟩] }
  | _ => .ok t

/-- A loop over the records that skips those of other transactions. -/
def forTxn {β : Type} (tid : TxnId) (f : β → WALRecordType × Bytes → Except Status β)
    (records : List WALRecord) (b : β) : Except Status β :=
  records.foldlM (fun b r => if r.txnId ≠ tid then .ok b else f b (r.type, r.payload)) b

/-- `unique_keys`, in the order of the set. -/
def uniqueKeys (writes : List BufferedWrite) : List (TableId × Bytes) :=
  (writes.map fun w => (w.tableId, w.key)).dedup.insertionSort fun a b =>
    a.1 < b.1 ∨ a.1 = b.1 ∧ a.2 ≤ b.2

/-- The locks of a prepared transaction. -/
def acquireAll (tid : TxnId) (keys : List (TableId × Bytes)) (l : LockManager) :
    Except Status LockManager :=
  keys.foldlM (fun l k =>
    let r := l.acquire (makeLockKey k.1 k.2) tid
    if r.2 then .ok r.1 else .error .lockTimeout) l

/-- The turn of the main loop for one transaction. -/
def recoverTxn (records : List WALRecord) (m : TxnManager) (tid : TxnId) :
    Except Status TxnManager :=
  match lastRecord records tid with
  | none => .ok m
  | some (type, lastI) =>
    let payload := (records[lastI]?.map WALRecord.payload).getD []
    match type with
    | .commit =>
      match WAL.deserializeCommitPayload payload with
      | none => .error (badPayload "commit")
      | some cts => do
        let store ← forTxn tid (replayRecord cts) (records.take lastI) m.store
        pure { m with store := store }
    | .prepare =>
      match WAL.deserializePreparePayload payload with
      | none => .error (badPayload "prepare")
      | some cts => do
        let t ← forTxn tid rebuildRecord (records.take lastI) ⟨tid, 0, cts, .prepared, [], [], []⟩
        let locks ← acquireAll tid (uniqueKeys t.writeSet) m.lockMgr
        pure { m with
          lockMgr := locks
          txns := update m.txns tid
            (some { t with lockedKeys := uniqueKeys t.writeSet }) }
    | _ => .ok m

/-- `Recover`. -/
def TxnManager.recover (m : TxnManager) : Except Status TxnManager :=
  (txnOrder m.wal.records).foldlM (recoverTxn m.wal.records)
    { m with nextTxnId := maxTxnId m.wal.records + 1 }

/-- A manager over an empty store and fresh locks, on a log that is already there. -/
def TxnManager.reopen (records : List WALRecord) : TxnManager :=
  { TxnManager.empty with wal := ⟨records, (records.map WALRecord.lsn).foldl max 0 + 1⟩ }

/-! ## The last record of a transaction -/

/-- The type of the last record of a transaction. -/
def lastType (records : List WALRecord) (tid : TxnId) : Option WALRecordType :=
  (content records tid).getLast?.map Prod.fst

theorem lastRecord_append (records : List WALRecord) (r : WALRecord) :
    lastRecord (records ++ [r]) =
      update (lastRecord records) r.txnId (some (r.type, records.length)) := by
  unfold lastRecord
  rw [zipIdx_append, foldl_append]
  simp

variable {tid : TxnId} {type : WALRecordType} {w : BufferedWrite} {ws : List BufferedWrite}
  {keys : List (TableId × Bytes)} {records : List WALRecord}

/-- Where the last record of a transaction stands. -/
theorem lastRecord_eq_some {n : ℕ} (h : lastRecord records tid = some (type, n)) :
    ∃ r, records[n]? = some r ∧ r.type = type ∧
      content records tid = content (records.take n) tid ++ [(type, r.payload)] := by
  induction records using reverseRecOn with
  | nil => cases h
  | append_singleton records r ih =>
    rw [lastRecord_append] at h
    rcases update_eq_cases h with ⟨rfl, h'⟩ | ⟨hr, h⟩
    · cases h'
      refine ⟨r, by simp, rfl, ?_⟩
      rw [content_append, if_pos rfl, take_left' rfl]
    · obtain ⟨r', hget, htype, hcontent⟩ := ih h
      have hlt : n < records.length := (List.getElem?_eq_some_iff.mp hget).1
      refine ⟨r', by rw [getElem?_append_left hlt]; exact hget, htype, ?_⟩
      rw [content_append, if_neg (fun heq => hr heq.symm), append_nil, hcontent,
        take_append_of_le_length hlt.le]

theorem lastRecord_eq_none (h : lastRecord records tid = none) :
    content records tid = [] := by
  induction records using reverseRecOn with
  | nil => rfl
  | append_singleton records r ih =>
    rw [lastRecord_append] at h
    rcases update_eq_cases h with ⟨rfl, h'⟩ | ⟨hr, h⟩
    · cases h'
    · rw [content_append, ih h, if_neg (fun heq => hr heq.symm)]
      rfl

/-- A transaction with a known last record: what the loop looks up. -/
theorem lastRecord_of_content {init : List (WALRecordType × Bytes)}
    {payload : Bytes} (h : content records tid = init ++ [(type, payload)]) :
    ∃ n, lastRecord records tid = some (type, n) ∧
      (records[n]?.map WALRecord.payload).getD [] = payload ∧
      content (records.take n) tid = init := by
  cases hl : lastRecord records tid with
  | none => simp [lastRecord_eq_none hl] at h
  | some tn =>
    obtain ⟨type', n⟩ := tn
    obtain ⟨r, hget, -, hcontent⟩ := lastRecord_eq_some hl
    rw [hcontent] at h
    obtain ⟨hinit, hlast⟩ := append_inj' h rfl
    simp only [cons.injEq, Prod.mk.injEq, and_true] at hlast
    obtain ⟨rfl, rfl⟩ := hlast
    exact ⟨n, rfl, by simp [hget], hinit⟩

theorem lastType_eq (records : List WALRecord) (tid : TxnId) :
    lastType records tid = (lastRecord records tid).map Prod.fst := by
  unfold lastType
  cases hl : lastRecord records tid with
  | none => simp [lastRecord_eq_none hl]
  | some tn =>
    obtain ⟨type, n⟩ := tn
    obtain ⟨r, -, -, hcontent⟩ := lastRecord_eq_some hl
    simp [hcontent]

theorem mem_txnOrder :
    tid ∈ txnOrder records ↔ content records tid ≠ [] := by
  unfold txnOrder content
  simp

theorem nodup_txnOrder (records : List WALRecord) : (txnOrder records).Nodup :=
  (perm_insertionSort _ _).nodup_iff.mpr (nodup_dedup _)

theorem le_maxTxnId {r : WALRecord} (h : r ∈ records) :
    r.txnId ≤ maxTxnId records := by
  induction records using reverseRecOn with
  | nil => cases h
  | append_singleton records r' ih =>
    unfold maxTxnId at ih ⊢
    rw [foldl_append]
    rcases mem_append.mp h with h | h
    · exact (ih h).trans (le_max_left _ _)
    · obtain rfl := mem_singleton.mp h
      exact le_max_right _ _

/-- A loop that skips the other transactions sees what the log holds of its own. -/
theorem forTxn_eq {β : Type} (tid : TxnId) (f : β → WALRecordType × Bytes → Except Status β)
    (records : List WALRecord) (b : β) :
    forTxn tid f records b = (content records tid).foldlM f b := by
  unfold forTxn content
  induction records generalizing b with
  | nil => rfl
  | cons r rs ih =>
    rw [foldlM_cons]
    by_cases hr : r.txnId = tid
    · rw [if_neg (not_not.mpr hr), filter_cons_of_pos (by simpa using hr), map_cons,
        foldlM_cons]
      congr
      funext b'
      exact ih b'
    · rw [if_pos hr, filter_cons_of_neg (by simpa using hr)]
      exact ih b

/-! ## What a transaction leaves in the log and what is read back -/

/-- A write that the log can hold: its sizes fit into 32 bits, and a deletion has no
value. -/
def BufferedWrite.Tidy (w : BufferedWrite) : Prop :=
  w.key.length < 2 ^ 32 ∧ w.value.length < 2 ^ 32 ∧ (w.isDelete = true → w.value = [])

theorem replayRecord_record (h : w.Tidy) (cts : Timestamp) (s : MVCCStore) :
    replayRecord cts s w.record = .ok (w.apply s cts) := by
  unfold BufferedWrite.record BufferedWrite.apply
  cases hd : w.isDelete with
  | true => simp [replayRecord, WAL.deserializeDeletePayload_serialize _ _ h.1, MVCCStore.replayPut,
      MVCCStore.put, MVCCStore.delete]
  | false => simp [replayRecord, WAL.deserializeWritePayload_serialize _ _ h.1 h.2.1,
      MVCCStore.replayPut]

theorem rebuildRecord_record (h : w.Tidy) (t : Transaction) :
    rebuildRecord t w.record = .ok { t with writeSet := t.writeSet ++ [w] } := by
  obtain ⟨tb, k, v, d⟩ := w
  unfold BufferedWrite.record
  cases d with
  | true =>
    obtain rfl : v = [] := h.2.2 rfl
    simp [rebuildRecord, WAL.deserializeDeletePayload_serialize _ _ h.1]
  | false => simp [rebuildRecord, WAL.deserializeWritePayload_serialize _ _ h.1 h.2.1]

theorem replay_writes (h : ∀ w ∈ ws, w.Tidy) (cts : Timestamp) (s : MVCCStore) :
    (ws.map BufferedWrite.record).foldlM (replayRecord cts) s =
      .ok (ws.foldl (fun s w => w.apply s cts) s) := by
  induction ws generalizing s with
  | nil => rfl
  | cons w ws ih =>
    rw [map_cons, foldlM_cons, replayRecord_record (h w mem_cons_self)]
    exact ih (fun w' hw' => h w' (mem_cons_of_mem _ hw')) _

theorem rebuild_writes (h : ∀ w ∈ ws, w.Tidy) (t : Transaction) :
    (ws.map BufferedWrite.record).foldlM rebuildRecord t =
      .ok { t with writeSet := t.writeSet ++ ws } := by
  induction ws generalizing t with
  | nil => simp only [map_nil, foldlM_nil, append_nil]; rfl
  | cons w ws ih =>
    rw [map_cons, foldlM_cons, rebuildRecord_record (h w mem_cons_self)]
    refine (ih (fun w' hw' => h w' (mem_cons_of_mem _ hw')) _).trans ?_
    simp

/-- The records of a prepared transaction, replayed at its commit timestamp. -/
theorem replay_records {t : Transaction} (hp : t.state = .prepared) (h : ∀ w ∈ t.writeSet, w.Tidy)
    (cts : Timestamp) (s : MVCCStore) :
    t.records.foldlM (replayRecord cts) s =
      .ok (t.writeSet.foldl (fun s w => w.apply s cts) s) := by
  unfold Transaction.records
  rw [if_pos hp, cons_append, foldlM_cons]
  show foldlM (replayRecord cts) s (_ ++ [_]) = _
  rw [foldlM_append, replay_writes h]
  rfl

/-- The records of a prepared transaction before the last one give it back. -/
theorem rebuild_records {t t0 : Transaction} (h : ∀ w ∈ t.writeSet, w.Tidy) :
    ((WALRecordType.begin, WAL.serializeBeginPayload t.snapshotTs) ::
        t.writeSet.map BufferedWrite.record).foldlM rebuildRecord t0 =
      .ok { t0 with snapshotTs := t.snapshotTs, writeSet := t0.writeSet ++ t.writeSet } := by
  rw [foldlM_cons]
  show (rebuildRecord t0 _ >>= _) = _
  simp only [rebuildRecord, WAL.deserializeBeginPayload_serialize]
  exact rebuild_writes h _

/-! ## What recovery needs and what it gives -/

/-- A log that was written by transactions with the last values `archive`. -/
structure Recoverable (records : List WALRecord) (archive : TxnId → Option Transaction) :
    Prop where
  prepared : ∀ T, lastType records T = some .prepare →
    ∃ t, archive T = some t ∧ t.state = .prepared ∧ content records T = t.records
  committed : ∀ T, lastType records T = some .commit → ∃ ts, CommitIn records T ts
  commit_last : ∀ T ts, CommitIn records T ts →
    ∃ t, archive T = some t ∧ t.state = .prepared ∧
      content records T = t.records ++ [(.commit, WAL.serializeCommitPayload ts)]
  tidy : ∀ T t, archive T = some t → ∀ w ∈ t.writeSet, w.Tidy
  positive : content records 0 = []
  /-- Prepared transactions have no row in common. -/
  exclusive : ∀ T T' t t', lastType records T = some .prepare →
    lastType records T' = some .prepare → archive T = some t → archive T' = some t' →
      ∀ w ∈ t.writeSet, ∀ w' ∈ t'.writeSet, w.lockKey = w'.lockKey → T = T'
  distinct : ∀ T T' ts, CommitIn records T ts → CommitIn records T' ts → T = T'

/-- A transaction is prepared as it was before, and owns the locks of its rows. -/
def RebuiltAs (archive : TxnId → Option Transaction) (m : TxnManager) (T : TxnId)
    (t' : Transaction) : Prop :=
  ∃ t, archive T = some t ∧ t'.txnId = T ∧ t'.state = .prepared ∧ t'.writeSet = t.writeSet ∧
    t'.snapshotTs = t.snapshotTs ∧ t'.prepareCommitTs = t.prepareCommitTs ∧
    ∀ w ∈ t.writeSet, m.lockMgr.owner w.lockKey = T

/-- **What recovery is for.**  The store has the last write of each row by each
committed transaction and nothing else; the prepared transactions are there again,
with their locks; ids go on above those in the log. -/
structure Restored (records : List WALRecord) (archive : TxnId → Option Transaction)
    (m : TxnManager) : Prop where
  version : ∀ tb k ts v, MVCCStore.version m.store tb k ts = some v ↔
    ∃ T t, CommitIn records T ts ∧ archive T = some t ∧ lastWrite t.writeSet tb k = some v
  keys : ∀ e ∈ m.store.entries, ∃ tb k ts, e.1 = encodeKey tb k ts
  txns : ∀ T, m.txns T ≠ none ↔ lastType records T = some .prepare
  prepared : ∀ T t', m.txns T = some t' → RebuiltAs archive m T t'
  nextTxnId : ∀ r ∈ records, r.txnId < m.nextTxnId

/-- The main loop after the transactions in `done`. -/
structure LoopInv (records : List WALRecord) (archive : TxnId → Option Transaction)
    (done : List TxnId) (m : TxnManager) : Prop where
  version : ∀ tb k ts v, MVCCStore.version m.store tb k ts = some v ↔
    ∃ T ∈ done, ∃ t, CommitIn records T ts ∧ archive T = some t ∧
      lastWrite t.writeSet tb k = some v
  keys : ∀ e ∈ m.store.entries, ∃ tb k ts, e.1 = encodeKey tb k ts
  txns : ∀ T, m.txns T ≠ none ↔ T ∈ done ∧ lastType records T = some .prepare
  prepared : ∀ T t', m.txns T = some t' → RebuiltAs archive m T t'
  owner : ∀ lk, m.lockMgr.owner lk ≠ 0 → ∃ T ∈ done, ∃ t, lastType records T = some .prepare ∧
    archive T = some t ∧ ∃ w ∈ t.writeSet, w.lockKey = lk
  nextTxnId : m.nextTxnId = maxTxnId records + 1

theorem mem_uniqueKeys {x : TableId × Bytes} :
    x ∈ uniqueKeys ws ↔ ∃ w ∈ ws, (w.tableId, w.key) = x := by
  unfold uniqueKeys
  simp

/-- Locks that are all free are all granted. -/
theorem acquireAll_ok (tid : TxnId) {l : LockManager}
    (h : ∀ x ∈ keys, l.owner (makeLockKey x.1 x.2) = 0) :
    ∃ l', acquireAll tid keys l = .ok l' ∧ ∀ lk, l'.owner lk =
      if ∃ x ∈ keys, makeLockKey x.1 x.2 = lk then tid else l.owner lk := by
  unfold acquireAll
  refine foldlM_inv (I := fun (done : List (TableId × Bytes)) (l' : LockManager) => ∀ lk, l'.owner lk =
    if ∃ x ∈ done, makeLockKey x.1 x.2 = lk then tid else l.owner lk) (by simp) ?_
  intro done x rest l' hl hI
  have hfree : l'.owner (makeLockKey x.1 x.2) = 0 ∨ l'.owner (makeLockKey x.1 x.2) = tid := by
    rw [hI]
    split_ifs
    · exact .inr rfl
    · exact .inl (h x (by simp [hl]))
  refine ⟨(l'.acquire (makeLockKey x.1 x.2) tid).1, by simp [l'.acquire_iff.mpr hfree], ?_⟩
  intro lk
  rw [LockManager.owner_acquire]
  by_cases hx : makeLockKey x.1 x.2 = lk
  · subst hx
    rcases hfree with h0 | h0
    · simp [h0]
    · by_cases hz : tid = 0
      · simp [h0, hz]
      · simp [h0, hz]
  · rw [if_neg (fun hlk => hx hlk.1.symm), hI lk]
    refine if_congr ?_ rfl rfl
    constructor
    · rintro ⟨y, hy, heq⟩
      exact ⟨y, mem_append_left _ hy, heq⟩
    · rintro ⟨y, hy, heq⟩
      rcases mem_append.mp hy with hy | hy
      · exact ⟨y, hy, heq⟩
      · obtain rfl := mem_singleton.mp hy
        exact absurd heq hx

/-! ## The main loop -/

section Loop

variable {archive : TxnId → Option Transaction} {m : TxnManager} {done : List TxnId} {T : TxnId}

section

variable (h : Recoverable records archive)
include h

/-- A transaction commits at one timestamp. -/
theorem Recoverable.commit_unique {ts ts' : Timestamp} (h1 : CommitIn records T ts)
    (h2 : CommitIn records T ts') : ts = ts' := by
  obtain ⟨t, ht, -, hc⟩ := h.commit_last T ts h1
  obtain ⟨t', ht', -, hc'⟩ := h.commit_last T ts' h2
  rw [ht] at ht'
  cases ht'
  rw [hc] at hc'
  have hlast : WAL.serializeCommitPayload ts = WAL.serializeCommitPayload ts' := by
    simpa using append_cancel_left hc'
  have := congrArg WAL.deserializeCommitPayload hlast
  simpa [WAL.deserializeCommitPayload_serialize] using this

theorem Recoverable.lastType_of_commitIn {ts : Timestamp} (hc : CommitIn records T ts) :
    lastType records T = some .commit := by
  obtain ⟨t, -, -, hcontent⟩ := h.commit_last T ts hc
  simp [lastType, hcontent]

theorem recoverTxn_commit (hlast : lastType records T = some .commit) (m : TxnManager) :
    ∃ t ts, CommitIn records T ts ∧ archive T = some t ∧
      recoverTxn records m T =
        .ok { m with store := t.writeSet.foldl (fun s w => w.apply s ts) m.store } := by
  obtain ⟨ts, hts⟩ := h.committed T hlast
  obtain ⟨t, ht, hprep, hcontent⟩ := h.commit_last T ts hts
  obtain ⟨n, hn, hpayload, hinit⟩ := lastRecord_of_content hcontent
  refine ⟨t, ts, hts, ht, ?_⟩
  simp only [recoverTxn, hn, hpayload, WAL.deserializeCommitPayload_serialize, forTxn_eq, hinit,
    replay_records hprep (h.tidy T t ht)]
  rfl

theorem recoverTxn_prepare (hlast : lastType records T = some .prepare) (m : TxnManager) :
    ∃ t, archive T = some t ∧ ∀ locks,
      acquireAll T (uniqueKeys t.writeSet) m.lockMgr = .ok locks →
      recoverTxn records m T = .ok { m with
        lockMgr := locks
        txns := update m.txns T
          (some ⟨T, t.snapshotTs, t.prepareCommitTs, .prepared, t.writeSet, [],
            uniqueKeys t.writeSet⟩) } := by
  obtain ⟨t, ht, hprep, hcontent⟩ := h.prepared T hlast
  unfold Transaction.records at hcontent
  rw [if_pos hprep] at hcontent
  obtain ⟨n, hn, hpayload, hinit⟩ := lastRecord_of_content hcontent
  refine ⟨t, ht, fun locks hlocks => ?_⟩
  simp only [recoverTxn, hn, hpayload, WAL.deserializePreparePayload_serialize, forTxn_eq, hinit,
    rebuild_records (h.tidy T t ht)]
  simp only [bind, Except.bind, pure, Except.pure, nil_append, hlocks]

end

theorem recoverTxn_other (hc : lastType records T ≠ some .commit)
    (hp : lastType records T ≠ some .prepare) (m : TxnManager) :
    recoverTxn records m T = .ok m := by
  rw [lastType_eq] at hc hp
  unfold recoverTxn
  cases hl : lastRecord records T with
  | none => rfl
  | some tn =>
    obtain ⟨type, n⟩ := tn
    rw [hl] at hc hp
    cases type with
    | commit => exact absurd rfl hc
    | prepare => exact absurd rfl hp
    | _ => rfl

/-- A transaction without a `COMMIT` record adds nothing to the store. -/
theorem LoopInv.version_skip (hI : LoopInv records archive done m)
    (hT : ∀ ts, ¬ CommitIn records T ts) (tb : TableId) (k : Bytes) (ts : Timestamp) (v : Bytes) :
    MVCCStore.version m.store tb k ts = some v ↔
      ∃ T' ∈ done ++ [T], ∃ t, CommitIn records T' ts ∧ archive T' = some t ∧
        lastWrite t.writeSet tb k = some v := by
  rw [hI.version]
  constructor
  · rintro ⟨T', hT', hrest⟩
    exact ⟨T', mem_append_left _ hT', hrest⟩
  · rintro ⟨T', hT', t, hcommit, hrest⟩
    rcases mem_append.mp hT' with hT' | hT'
    · exact ⟨T', hT', t, hcommit, hrest⟩
    · obtain rfl := mem_singleton.mp hT'
      exact absurd hcommit (hT ts)

/-- A transaction that is not prepared adds nothing to `txns_`. -/
theorem LoopInv.txns_skip (hI : LoopInv records archive done m)
    (hT : lastType records T ≠ some .prepare) (T' : TxnId) :
    m.txns T' ≠ none ↔ T' ∈ done ++ [T] ∧ lastType records T' = some .prepare := by
  rw [hI.txns]
  refine and_congr_left fun hp => ?_
  have hne : T' ≠ T := by
    rintro rfl
    exact hT hp
  simp [hne]

theorem LoopInv.owner_skip (hI : LoopInv records archive done m) (T : TxnId) (lk : Bytes)
    (hlk : m.lockMgr.owner lk ≠ 0) :
    ∃ T' ∈ done ++ [T], ∃ t, lastType records T' = some .prepare ∧ archive T' = some t ∧
      ∃ w ∈ t.writeSet, w.lockKey = lk := by
  obtain ⟨T', hT', hrest⟩ := hI.owner lk hlk
  exact ⟨T', mem_append_left _ hT', hrest⟩

section

variable (h : Recoverable records archive) (hI : LoopInv records archive done m)
include h hI

theorem LoopInv.commit (hnew : T ∉ done) (hlast : lastType records T = some .commit) :
    ∃ m', recoverTxn records m T = .ok m' ∧ LoopInv records archive (done ++ [T]) m' := by
  obtain ⟨t, ts, hts, ht, hrec⟩ := recoverTxn_commit h hlast m
  have hnot : lastType records T ≠ some .prepare := by rw [hlast]; simp
  refine ⟨_, hrec, ?_, ?_, hI.txns_skip hnot, hI.prepared, hI.owner_skip T, hI.nextTxnId⟩
  · intro tb k ts' v
    rw [version_foldl_apply]
    have hold := hI.version tb k ts' v
    by_cases heq : ts' = ts
    · subst heq
      -- nobody else has committed at this timestamp
      have hnone : MVCCStore.version m.store tb k ts' = none := by
        cases hv : MVCCStore.version m.store tb k ts' with
        | none => rfl
        | some v' =>
          obtain ⟨T', hT', t', hc', -⟩ := (hI.version tb k ts' v').mp hv
          rw [h.distinct _ _ _ hc' hts] at hT'
          exact absurd hT' hnew
      rw [if_pos rfl, hnone, Option.or_none]
      constructor
      · intro hw
        exact ⟨T, by simp, t, hts, ht, hw⟩
      · rintro ⟨T', -, t', hc', ht', hw⟩
        rw [h.distinct _ _ _ hc' hts, ht] at ht'
        cases ht'
        exact hw
    · rw [if_neg heq, hold]
      constructor
      · rintro ⟨T', hT', hrest⟩
        exact ⟨T', mem_append_left _ hT', hrest⟩
      · rintro ⟨T', hT', t', hc', hrest⟩
        rcases mem_append.mp hT' with hT' | hT'
        · exact ⟨T', hT', t', hc', hrest⟩
        · obtain rfl := mem_singleton.mp hT'
          exact absurd (h.commit_unique hc' hts) heq
  · exact keys_foldl_apply t.writeSet hI.keys ts

theorem LoopInv.prepare (hnew : T ∉ done) (hlast : lastType records T = some .prepare) :
    ∃ m', recoverTxn records m T = .ok m' ∧ LoopInv records archive (done ++ [T]) m' := by
  obtain ⟨t, ht, hrec⟩ := recoverTxn_prepare h hlast m
  have hpos : T ≠ 0 := by
    rintro rfl
    simp [lastType, h.positive] at hlast
  have hfree : ∀ w ∈ t.writeSet, m.lockMgr.owner w.lockKey = 0 := by
    intro w hw
    by_contra hne
    obtain ⟨T', hT', t', hp', ht', w', hw', hkey⟩ := hI.owner _ hne
    rw [h.exclusive T' T t' t hp' hlast ht' ht w' hw' w hw hkey] at hT'
    exact hnew hT'
  have hfreeKeys : ∀ x ∈ uniqueKeys t.writeSet, m.lockMgr.owner (makeLockKey x.1 x.2) = 0 := by
    intro x hx
    obtain ⟨w, hw, rfl⟩ := mem_uniqueKeys.mp hx
    exact hfree w hw
  obtain ⟨locks, hlocks, howner⟩ := acquireAll_ok T hfreeKeys
  have hmine : ∀ w ∈ t.writeSet, locks.owner w.lockKey = T := by
    intro w hw
    rw [howner, if_pos ⟨_, mem_uniqueKeys.mpr ⟨w, hw, rfl⟩, rfl⟩]
  -- whoever owned a lock still does
  have hkept : ∀ lk, m.lockMgr.owner lk ≠ 0 → locks.owner lk = m.lockMgr.owner lk := by
    intro lk hlk
    rw [howner, if_neg]
    rintro ⟨x, hx, rfl⟩
    obtain ⟨w, hw, rfl⟩ := mem_uniqueKeys.mp hx
    exact hlk (hfree w hw)
  refine ⟨_, hrec locks hlocks, ?_, hI.keys, ?_, ?_, ?_, hI.nextTxnId⟩
  · refine hI.version_skip fun ts hc => ?_
    rw [h.lastType_of_commitIn hc] at hlast
    cases hlast
  · intro T'
    by_cases hT' : T' = T
    · subst hT'
      simp [hlast]
    · have := hI.txns T'
      simpa [hT'] using this
  · intro T' t' ht'
    dsimp only at ht'
    rcases update_eq_cases ht' with ⟨rfl, ht''⟩ | ⟨-, ht'⟩
    · cases ht''
      exact ⟨t, ht, rfl, rfl, rfl, rfl, rfl, hmine⟩
    · obtain ⟨t0, h0, h1, h2, h3, h4, h5, hown⟩ := hI.prepared T' t' ht'
      refine ⟨t0, h0, h1, h2, h3, h4, h5, fun w hw => ?_⟩
      have hT'pos : T' ≠ 0 := by
        rintro rfl
        have := ((hI.txns 0).mp (by rw [ht']; simp)).2
        simp [lastType, h.positive] at this
      exact (hkept _ (by rw [hown w hw]; exact hT'pos)).trans (hown w hw)
  · intro lk hlk
    by_cases hold : m.lockMgr.owner lk = 0
    · simp only [howner, hold] at hlk
      split_ifs at hlk with hx
      · obtain ⟨x, hx, rfl⟩ := hx
        obtain ⟨w, hw, rfl⟩ := mem_uniqueKeys.mp hx
        exact ⟨T, by simp, t, hlast, ht, w, hw, rfl⟩
      · exact absurd rfl hlk
    · exact hI.owner_skip T lk hold

theorem LoopInv.other (hc : lastType records T ≠ some .commit)
    (hp : lastType records T ≠ some .prepare) :
    LoopInv records archive (done ++ [T]) m := by
  refine ⟨hI.version_skip ?_, hI.keys, hI.txns_skip hp, hI.prepared, hI.owner_skip T, hI.nextTxnId⟩
  intro ts hts
  exact hc (h.lastType_of_commitIn hts)

end

/-- **Recovery succeeds and restores the committed and the prepared work.** -/
theorem recover_ok (h : Recoverable records archive) :
    ∃ m, (TxnManager.reopen records).recover = .ok m ∧ Restored records archive m := by
  have hinit : LoopInv records archive []
      { TxnManager.reopen records with nextTxnId := maxTxnId records + 1 } := by
    refine ⟨?_, ?_, ?_, ?_, ?_, rfl⟩
    · intro tb k ts v
      simp [TxnManager.reopen, TxnManager.empty, MVCCStore.version, SortedMap.find_empty]
    · intro e he
      cases he
    · intro T
      simp [TxnManager.reopen, TxnManager.empty]
    · intro T t' ht'
      cases ht'
    · intro lk hlk
      exact absurd rfl hlk
  obtain ⟨m, hm, hI⟩ := foldlM_inv (f := recoverTxn records) (l := txnOrder records) hinit (by
    intro done T rest m hl hI
    have hnew : T ∉ done := by
      have hnodup := nodup_txnOrder records
      rw [hl, nodup_append] at hnodup
      intro hT
      exact hnodup.2.2 T hT T mem_cons_self rfl
    by_cases hc : lastType records T = some .commit
    · exact hI.commit h hnew hc
    by_cases hp : lastType records T = some .prepare
    · exact hI.prepare h hnew hp
    · exact ⟨m, recoverTxn_other hc hp m, hI.other h hc hp⟩)
  have hall : ∀ {T}, lastType records T ≠ none → T ∈ txnOrder records := by
    intro T hT
    rw [mem_txnOrder]
    intro hnil
    simp [lastType, hnil] at hT
  refine ⟨m, hm, ?_, hI.keys, ?_, hI.prepared, ?_⟩
  · intro tb k ts v
    rw [hI.version]
    constructor
    · rintro ⟨T, -, t, hrest⟩
      exact ⟨T, t, hrest⟩
    · rintro ⟨T, t, hc, hrest⟩
      exact ⟨T, hall (by rw [h.lastType_of_commitIn hc]; simp), t, hc, hrest⟩
  · intro T
    rw [hI.txns]
    exact ⟨fun hT => hT.2, fun hp => ⟨hall (by rw [hp]; simp), hp⟩⟩
  · intro r hr
    rw [hI.nextTxnId]
    exact Nat.lt_succ_of_le (le_maxTxnId hr)

end Loop

/-! ## What one turn of `Recover` does -/

/-- Locks acquired in one go are all owned at the end, and none is taken from another. -/
theorem acquireAll_owner {T : TxnId} {l l' : LockManager} (hT : T ≠ 0)
    (h : acquireAll T keys l = .ok l') :
    (∀ k ∈ keys, l'.owner (makeLockKey k.1 k.2) = T) ∧
      ∀ lk, l.owner lk ≠ 0 → l'.owner lk = l.owner lk := by
  unfold acquireAll at h
  induction keys generalizing l with
  | nil =>
    cases h
    exact ⟨fun _ hk => absurd hk not_mem_nil, fun _ _ => rfl⟩
  | cons k keys ih =>
    rw [foldlM_cons] at h
    dsimp only at h
    by_cases hgot : (l.acquire (makeLockKey k.1 k.2) T).2 = true
    · rw [if_pos hgot] at h
      obtain ⟨howned, hkept⟩ := ih h
      have hk := l.owner_of_acquire hgot
      refine ⟨fun k' hk' => ?_, fun lk hlk => ?_⟩
      · rcases mem_cons.mp hk' with rfl | hk'
        · rw [hkept _ (by rw [hk]; exact hT), hk]
        · exact howned k' hk'
      · have hsame : (l.acquire (makeLockKey k.1 k.2) T).1.owner lk = l.owner lk := by
          rw [LockManager.owner_acquire, if_neg]
          rintro ⟨rfl, hfree⟩
          exact hlk hfree
        rw [hkept lk (by rw [hsame]; exact hlk), hsame]
    · rw [if_neg hgot] at h
      cases h

theorem recoverTxn_cases {m m' : TxnManager} {T : TxnId} (h : recoverTxn records m T = .ok m') :
    m'.wal = m.wal ∧ m'.nextTxnId = m.nextTxnId ∧ ((m'.txns = m.txns ∧ m'.lockMgr = m.lockMgr) ∨
        ∃ t, m'.txns = update m.txns T (some t) ∧
          acquireAll T (uniqueKeys t.writeSet) m.lockMgr = .ok m'.lockMgr) := by
  unfold recoverTxn at h
  cases hlast : lastRecord records T with
  | none =>
    rw [hlast] at h
    cases h
    exact ⟨rfl, rfl, .inl ⟨rfl, rfl⟩⟩
  | some last =>
    obtain ⟨type, i⟩ := last
    rw [hlast] at h
    cases type with
    | commit =>
      dsimp only at h
      split at h
      · cases h
      · obtain ⟨store, -, heq⟩ := exists_of_bind_eq_ok h
        cases heq
        exact ⟨rfl, rfl, .inl ⟨rfl, rfl⟩⟩
    | prepare =>
      dsimp only at h
      split at h
      · cases h
      · obtain ⟨t, -, hrest⟩ := exists_of_bind_eq_ok h
        obtain ⟨locks, hlocks, heq⟩ := exists_of_bind_eq_ok hrest
        cases heq
        exact ⟨rfl, rfl, .inr ⟨_, rfl, hlocks⟩⟩
    | _ =>
      cases h
      exact ⟨rfl, rfl, .inl ⟨rfl, rfl⟩⟩

end TransDb.Txn
