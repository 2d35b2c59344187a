import TransDb.Txn.Reads

/-!
# Calls that are served alone

A call of the transaction manager that runs from its start to its return while no other
thread is active.

* `TxnManager.serve` — one call; `serveAll` — one after the other.
* `serve_begin`, `serve_change`, `serve_read`, `serve_scan`, `serve_prepare`,
  `serve_commit` — **what each call does**.  A read or scan answers `Op.replyAt`.
-/

namespace TransDb.Txn

open Storage

/-- Run a call to its end; the fuel bounds the number of its steps. -/
def Call.finish : ℕ → TxnManager → Call → Option (TxnManager × Reply)
  | 0, _, _ => none
  | n + 1, m, c =>
    match c.step m false with
    | none => none
    | some (m', .done r) => some (m', r)
    | some (m', .more c') => finish n m' c'

/-- One call, alone. -/
def TxnManager.serve (fuel : ℕ) (m : TxnManager) (op : Op) : Option (TxnManager × Reply) :=
  op.entry.finish fuel m

/-- One call after the other. -/
def TxnManager.serveAll (fuel : ℕ) : TxnManager → List Op → Option (TxnManager × List Reply)
  | m, [] => some (m, [])
  | m, op :: ops =>
    match m.serve fuel op with
    | none => none
    | some (m', r) => (serveAll fuel m' ops).map fun x => (x.1, r :: x.2)

section Finish

variable {m m' : TxnManager} {c c' : Call} {r : Reply}

theorem Call.finish_done (h : c.step m false = some (m', .done r)) (n : ℕ) :
    c.finish (n + 1) m = some (m', r) := by
  simp [finish, h]

theorem Call.finish_more (h : c.step m false = some (m', .more c')) (n : ℕ) :
    c.finish (n + 1) m = c'.finish n m' := by
  simp [finish, h]

/-- More fuel does not change the end. -/
theorem Call.finish_mono {n : ℕ} {x : TxnManager × Reply} (h : c.finish n m = some x) {k : ℕ}
    (hk : n ≤ k) : c.finish k m = some x := by
  induction n generalizing c m k with
  | zero => cases h
  | succ n ih =>
    obtain ⟨k, rfl⟩ : ∃ j, k = j + 1 := ⟨k - 1, by omega⟩
    unfold finish at h ⊢
    cases hs : c.step m false with
    | none => simp [hs] at h
    | some mo =>
      obtain ⟨m1, o⟩ := mo
      cases o with
      | done r =>
        simp only [hs] at h ⊢
        exact h
      | more c1 =>
        simp only [hs] at h ⊢
        exact ih h (by omega)

theorem TxnManager.serveAll_cons {fuel : ℕ} {op : Op} {ops : List Op}
    (h : m.serve fuel op = some (m', r)) :
    m.serveAll fuel (op :: ops) = (m'.serveAll fuel ops).map fun x => (x.1, r :: x.2) := by
  simp [serveAll, h]

end Finish

/-! ## Begin, and writes -/

namespace TxnManager

/-- The manager after `Begin`. -/
def begun (m : TxnManager) (snapshotTs : Timestamp) : TxnManager :=
  ({ m with nextTxnId := m.nextTxnId + 1 }.log m.nextTxnId
    (.begin, WAL.serializeBeginPayload snapshotTs)).setTxn m.nextTxnId
      (some (.fresh m.nextTxnId snapshotTs))

theorem serve_begin (m : TxnManager) (snapshotTs : Timestamp) {fuel : ℕ} (hf : 3 ≤ fuel) :
    m.serve fuel (.begin snapshotTs) =
      some (m.begun snapshotTs, ⟨.ok, some m.nextTxnId, [], []⟩) :=
  Call.finish_mono (n := 3) rfl hf

end TxnManager

/-- A change of a row that a client asks a transaction for. -/
inductive Change where
  | write (tableId : TableId) (key value : Bytes)
  | delete (tableId : TableId) (key : Bytes)
  deriving DecidableEq

namespace Change

/-- The call that makes the change. -/
def op (txnId : TxnId) : Change → Op
  | write tb k v => .write txnId tb k v
  | delete tb k => .delete txnId tb k

/-- What is buffered for it. -/
def buffered : Change → BufferedWrite
  | write tb k v => ⟨tb, k, v, false⟩
  | delete tb k => ⟨tb, k, [], true⟩

theorem entry_op (txnId : TxnId) (c : Change) : (c.op txnId).entry = .acquire txnId c.buffered := by
  cases c <;> rfl

end Change

namespace TxnManager

variable {m : TxnManager} {T : TxnId} {t : Transaction}

/-- The manager after a write was buffered. -/
def buffered (m : TxnManager) (T : TxnId) (t : Transaction) (w : BufferedWrite) : TxnManager :=
  ({ m with lockMgr := (m.lockMgr.acquire w.lockKey T).1 }.setTxn T (some { t with
      lockedKeys := t.lockedKeys ++ [(w.tableId, w.key)]
      writeSet := t.writeSet ++ [w] })).log T w.record

variable {fuel : ℕ}

/-- A write or delete of an active transaction, if nobody else has the lock of the row. -/
theorem serve_change (ht : m.txns T = some t) (hact : t.state = .active) (c : Change)
    (hlock : m.lockMgr.owner c.buffered.lockKey = 0 ∨ m.lockMgr.owner c.buffered.lockKey = T)
    (hf : 2 ≤ fuel) :
    m.serve fuel (c.op T) = some (m.buffered T t c.buffered, .of .ok) := by
  have hgranted := m.lockMgr.acquire_iff.mpr hlock
  have hfirst : (c.op T).entry.step m false =
      some ({ m with lockMgr := (m.lockMgr.acquire c.buffered.lockKey T).1 },
        .more (.buffer T c.buffered)) := by
    rw [c.entry_op]
    simp [Call.step, hgranted]
  refine Call.finish_mono (n := 2) ((Call.finish_more hfirst 1).trans (Call.finish_done ?_ 0)) hf
  simp [Call.step, ht, hact, buffered]

/-! ## Reads and scans -/

section

variable (ht : m.txns T = some t) (hact : t.state = .active)
include ht hact

theorem checkActive_of_active : checkActive m T = .ok t := by
  simp [checkActive, ht, hact]

theorem recordRead_of_active (r : ReadEntry) :
    recordRead m T r = some (m.setTxn T (some { t with readSet := t.readSet ++ [r] })) := by
  simp [recordRead, ht, hact]

/-- A read of a row that the transaction has written. -/
theorem serve_read_own {tb : TableId} {k : Bytes} {bw : BufferedWrite}
    (hb : latestBuffered t.writeSet tb k = some bw) (hf : 1 ≤ fuel) :
    m.serve fuel (.read T tb k) = some (m, bw.reply) := by
  refine Call.finish_mono (n := 1) (Call.finish_done ?_ 0) hf
  simp [Op.entry, Call.step, checkActive_of_active ht hact, hb, BufferedWrite.reply]

/-- **A read** of an active transaction answers what the store and its own writes say. -/
theorem serve_read (tb : TableId) (k : Bytes) (hf : 3 ≤ fuel) :
    ∃ m', m.serve fuel (.read T tb k) =
      some (m', (Op.read T tb k).replyAt m.store t.writeSet t.snapshotTs) := by
  have hcheck := checkActive_of_active ht hact
  cases hb : latestBuffered t.writeSet tb k with
  | some bw =>
    refine ⟨m, (serve_read_own ht hact hb (by omega)).trans ?_⟩
    simp [Op.replyAt, hb]
  | none =>
    have hfirst : (Call.read T tb k).step m false = some (m, .more (.readStore T tb k t.snapshotTs)) := by
      simp [Call.step, hcheck, hb]
    cases hg : MVCCStore.get m.store tb k t.snapshotTs with
    | none =>
      refine ⟨m, Call.finish_mono (n := 2) ?_ (by omega)⟩
      refine (Call.finish_more hfirst 1).trans (Call.finish_done ?_ 0)
      simp [Call.step, hg, Op.replyAt, hb, replyOfGet]
    | some vv =>
      obtain ⟨v, vts⟩ := vv
      refine ⟨m.setTxn T (some { t with readSet := t.readSet ++ [⟨tb, k, vts⟩] }), ?_⟩
      refine Call.finish_mono (n := 3) ?_ hf
      have hsecond : (Call.readStore T tb k t.snapshotTs).step m false =
          some (m, .more (.readRecord T tb k v vts)) := by
        simp [Call.step, hg]
      refine (Call.finish_more hfirst 2).trans ((Call.finish_more hsecond 1).trans
        (Call.finish_done ?_ 0))
      simp [Call.step, recordRead_of_active ht hact, Op.replyAt, hb, hg, replyOfGet]

/-- The loop of `Scan` over the rows of the store. -/
theorem finish_scanRow (tb : TableId) (ws : List BufferedWrite) (rows : List ScanRow)
    (out : List (Bytes × Bytes)) :
    ∃ m', (Call.scanRow T tb ws rows out).finish (rows.length + 1) m =
      some (m', ⟨.ok, none, [], out ++ mergeRows ws tb rows⟩) := by
  induction rows generalizing m t out with
  | nil =>
    refine ⟨m, Call.finish_done ?_ 0⟩
    simp [Call.step, mergeRows]
  | cons row rows ih =>
    cases hb : latestBuffered ws tb row.pk with
    | some bw =>
      obtain ⟨m', hm'⟩ := ih ht hact (out ++ mergeRow ws tb row)
      refine ⟨m', ?_⟩
      have hstep : (Call.scanRow T tb ws (row :: rows) out).step m false =
          some (m, .more (.scanRow T tb ws rows (out ++ mergeRow ws tb row))) := by
        by_cases hd : bw.isDelete = true
        · simp [Call.step, hb, mergeRow, hd]
        · simp [Call.step, hb, mergeRow, hd]
      rw [List.length_cons, Call.finish_more hstep, hm', mergeRows, mergeRows, List.flatMap_cons,
        List.append_assoc]
    | none =>
      have hrecord := recordRead_of_active ht hact ⟨tb, row.pk, row.writeTs⟩
      have hrow : mergeRow ws tb row = [(row.pk, row.value)] := by simp [mergeRow, hb]
      obtain ⟨m', hm'⟩ := ih (m := m.setTxn T (some
          { t with readSet := t.readSet ++ [⟨tb, row.pk, row.writeTs⟩] }))
        (Function.update_self _ _ _) hact (out ++ mergeRow ws tb row)
      refine ⟨m', ?_⟩
      have hstep : (Call.scanRow T tb ws (row :: rows) out).step m false = some (m.setTxn T (some
          { t with readSet := t.readSet ++ [⟨tb, row.pk, row.writeTs⟩] }),
          .more (.scanRow T tb ws rows (out ++ mergeRow ws tb row))) := by
        simp [Call.step, hb, hrecord, hrow]
      rw [List.length_cons, Call.finish_more hstep, hm', mergeRows, mergeRows, List.flatMap_cons,
        List.append_assoc]

/-- **A scan** of an active transaction answers what the store and its own writes say. -/
theorem serve_scan (r : ScanRange)
    (hf : (MVCCStore.scan m.store r t.snapshotTs).length + 3 ≤ fuel) :
    ∃ m', m.serve fuel (.scan T r) =
      some (m', (Op.scan T r).replyAt m.store t.writeSet t.snapshotTs) := by
  obtain ⟨m', hm'⟩ := finish_scanRow ht hact r.tableId t.writeSet
    (MVCCStore.scan m.store r t.snapshotTs) []
  refine ⟨m', Call.finish_mono ?_ hf⟩
  have hfirst : (Call.scan T r).step m false =
      some (m, .more (.scanStore T r t.snapshotTs t.writeSet)) := by
    simp [Call.step, checkActive_of_active ht hact]
  have hsecond : (Call.scanStore T r t.snapshotTs t.writeSet).step m false = some (m,
      .more (.scanRow T r.tableId t.writeSet (MVCCStore.scan m.store r t.snapshotTs) [])) := rfl
  exact (Call.finish_more hfirst _).trans ((Call.finish_more hsecond _).trans hm')

end

/-! ## The end of a transaction -/

/-- The manager after `Prepare`. -/
def preparedAt (m : TxnManager) (T : TxnId) (t : Transaction) (commitTs : Timestamp) : TxnManager :=
  (m.setTxn T (some { t with state := .prepared, prepareCommitTs := commitTs })).log T
    (.prepare, WAL.serializePreparePayload commitTs)

/-- `Prepare` of a transaction that has only written. -/
theorem serve_prepare (ht : m.txns T = some t) (hact : t.state = .active) (hread : t.readSet = [])
    (commitTs : Timestamp) (hf : 1 ≤ fuel) :
    m.serve fuel (.prepare T commitTs) = some (m.preparedAt T t commitTs, .of .ok) := by
  refine Call.finish_mono (n := 1) (Call.finish_done ?_ 0) hf
  have hvalid : validateReadSet m.store t commitTs = true := by simp [validateReadSet, hread]
  simp [Op.entry, Call.step, checkActive_of_active ht hact, hvalid, preparedAt]

/-- The loop of `ApplyWrites`. -/
theorem finish_applyWrites (m : TxnManager) (T : TxnId) (ts : Timestamp) (rest : List BufferedWrite)
    (n : ℕ) : (Call.applyWrites T ts rest).finish (rest.length + n) m =
      (Call.applyWrites T ts []).finish n
        { m with store := rest.foldl (fun s w => w.apply s ts) m.store } := by
  induction rest generalizing m with
  | nil => simp
  | cons w rest ih =>
    have hstep : (Call.applyWrites T ts (w :: rest)).step m false =
        some ({ m with store := w.apply m.store ts }, .more (.applyWrites T ts rest)) := rfl
    rw [List.length_cons, show rest.length + 1 + n = rest.length + n + 1 by omega,
      Call.finish_more hstep, ih]
    rfl

/-- `Commit` of a prepared transaction. -/
theorem serve_commit (ht : m.txns T = some t) (hprep : t.state = .prepared) (commitTs : Timestamp)
    (hf : t.writeSet.length + 4 ≤ fuel) :
    ∃ m', m.serve fuel (.commit T commitTs) = some (m', .of .ok) ∧
      m'.store = t.writeSet.foldl (fun s w => w.apply s commitTs) m.store ∧
      m'.wal = m.wal.append T .commit (WAL.serializeCommitPayload commitTs) ∧
      m'.nextTxnId = m.nextTxnId := by
  let m1 : TxnManager := { m.setTxn T none with
    store := t.writeSet.foldl (fun s w => w.apply s commitTs) m.store }
  let m2 := m1.log T (.commit, WAL.serializeCommitPayload commitTs)
  let m3 := { m2 with lockMgr := (m2.lockMgr.takeAll T).1 }
  refine ⟨{ m3 with lockMgr := m3.lockMgr.releaseKeys T (m2.lockMgr.takeAll T).2 }, ?_, rfl, rfl, rfl⟩
  refine Call.finish_mono (n := t.writeSet.length + 3 + 1) ?_ hf
  have hfirst : (Call.commit T commitTs).step m false =
      some (m.setTxn T none, .more (.applyWrites T commitTs t.writeSet)) := by
    simp [Call.step, ht, hprep]
  exact (Call.finish_more hfirst _).trans (finish_applyWrites (m.setTxn T none) T commitTs _ 3)

end TxnManager

end TransDb.Txn
