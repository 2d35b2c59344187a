import TransDb.Storage.Exact
import TransDb.Txn.Sessions

/-!
# What reads answer

A read or scan fixes its answer at one point: when it finds an own write of the row, or
when it goes to the store.  After that it can only be refused.

* `Op.replyAt` — the answer that a store gives at a snapshot, with the own writes of the
  reader.
* `Call.answer` — the answer that a read in progress will give.
* `ReadStep` — the steps of reads and scans; `Call.Serves.readStep` says there are no others.
* `answers` — the answers that a client has got.
-/

namespace TransDb.Txn

open Storage

/-! ## The answer of a store -/

/-- What a row of a scan contributes to the result, with the writes of the reader. -/
def mergeRow (own : List BufferedWrite) (tableId : TableId) (row : ScanRow) : List (Bytes × Bytes) :=
  match latestBuffered own tableId row.pk with
  | some bw => if bw.isDelete then [] else [(row.pk, bw.value)]
  | none => [(row.pk, row.value)]

/-- Own writes over a scan. -/
def mergeRows (own : List BufferedWrite) (tableId : TableId) (rows : List ScanRow) :
    List (Bytes × Bytes) :=
  rows.flatMap (mergeRow own tableId)

/-- What a transaction reads of a row that it has written. -/
def BufferedWrite.reply (w : BufferedWrite) : Reply :=
  if w.isDelete then .of .notFound else ⟨.ok, none, w.value, []⟩

/-- What `Get` gives the reader. -/
def replyOfGet : Option (Bytes × Timestamp) → Reply
  | none => .of .notFound
  | some (v, _) => ⟨.ok, none, v, []⟩

/-- The answer to a read or scan: that of the store at the snapshot, with the own writes of
the reader. -/
def Op.replyAt (store : MVCCStore) (own : List BufferedWrite) (snap : Timestamp) : Op → Reply
  | .read _ tb k =>
    match latestBuffered own tb k with
    | some bw => bw.reply
    | none => replyOfGet (MVCCStore.get store tb k snap)
  | .scan _ r => ⟨.ok, none, [], mergeRows own r.tableId (MVCCStore.scan store r snap)⟩
  | _ => .of .ok

/-- The rows that a read or scan asks for. -/
def Op.asks : Op → TableId → Bytes → Bool
  | .read _ tb k, tb', k' => decide (tb = tb' ∧ k = k')
  | .scan _ r, tb', k' => decide (r.tableId = tb') && r.contains k'
  | _, _, _ => false

variable {op : Op}

/-- Only the own writes of the rows asked for matter. -/
theorem Op.replyAt_own {store : MVCCStore} (hfree : store.PrefixFree) {snap : Timestamp}
    {own own' : List BufferedWrite}
    (h : ∀ tb k, op.asks tb k = true → latestBuffered own tb k = latestBuffered own' tb k) :
    op.replyAt store own snap = op.replyAt store own' snap := by
  cases op with
  | read T tb k =>
    simp only [replyAt]
    rw [h tb k (by simp [asks])]
  | scan T r =>
    have hrows : mergeRows own r.tableId (MVCCStore.scan store r snap) =
        mergeRows own' r.tableId (MVCCStore.scan store r snap) := by
      refine List.flatMap_congr fun row hrow => ?_
      have hin := (hfree.mem_scan_iff.mp hrow).1
      unfold mergeRow
      rw [h r.tableId row.pk (by simp [asks, hin])]
    simp only [replyAt, hrows]
  | _ => rfl

/-- Only the versions up to the snapshot matter. -/
theorem Op.replyAt_store {store store' : MVCCStore} (hfree : store.PrefixFree)
    (hfree' : store'.PrefixFree) {snap : Timestamp}
    (h : ∀ tb k ts, ts ≤ snap → MVCCStore.version store' tb k ts = MVCCStore.version store tb k ts)
    (own : List BufferedWrite) (op : Op) :
    op.replyAt store' own snap = op.replyAt store own snap := by
  cases op with
  | read T tb k => simp only [replyAt, hfree.get_congr hfree' (h tb k)]
  | scan T r => simp only [replyAt, hfree.scan_congr hfree' (h r.tableId)]
  | _ => rfl

/-! ## Reads in progress -/

/-- The answer of a read that has been to the store, if it is not refused. -/
def Call.answer : Call → Option Reply
  | .readRecord _ _ _ v _ => some ⟨.ok, none, v, []⟩
  | .scanRow _ tb ws rest out => some ⟨.ok, none, [], out ++ mergeRows ws tb rest⟩
  | _ => none

/-- The status of a read that was not refused. -/
def Reply.isAnswer (r : Reply) : Bool := decide (r.status = .ok ∨ r.status = .notFound)

/-- The steps of reads and scans. -/
inductive ReadStep (m : TxnManager) : Op → Call → Outcome → Prop where
  | refuse {op : Op} {c : Call} {e : Status} (he : (Reply.of e).isAnswer = false) :
      ReadStep m op c (.done (.of e))
  | own {T : TxnId} {tb : TableId} {k : Bytes} {t : Transaction} {bw : BufferedWrite}
      (ht : m.txns T = some t) (hb : latestBuffered t.writeSet tb k = some bw) :
      ReadStep m (.read T tb k) (.read T tb k) (.done bw.reply)
  | toGet {T : TxnId} {tb : TableId} {k : Bytes} {t : Transaction} (ht : m.txns T = some t)
      (hb : latestBuffered t.writeSet tb k = none) :
      ReadStep m (.read T tb k) (.read T tb k) (.more (.readStore T tb k t.snapshotTs))
  | missing {T : TxnId} {tb : TableId} {k : Bytes} {ts : Timestamp}
      (hg : MVCCStore.get m.store tb k ts = none) :
      ReadStep m (.read T tb k) (.readStore T tb k ts) (.done (.of .notFound))
  | found {T : TxnId} {tb : TableId} {k v : Bytes} {ts vts : Timestamp}
      (hg : MVCCStore.get m.store tb k ts = some (v, vts)) :
      ReadStep m (.read T tb k) (.readStore T tb k ts) (.more (.readRecord T tb k v vts))
  | toScan {T : TxnId} {r : ScanRange} {t : Transaction} (ht : m.txns T = some t) :
      ReadStep m (.scan T r) (.scan T r) (.more (.scanStore T r t.snapshotTs t.writeSet))
  | scanned {T : TxnId} {r : ScanRange} {ts : Timestamp} {ws : List BufferedWrite} :
      ReadStep m (.scan T r) (.scanStore T r ts ws)
        (.more (.scanRow T r.tableId ws (MVCCStore.scan m.store r ts) []))
  | goOn {op : Op} {c c' : Call} {r : Reply} (hc : c.answer = some r) (hc' : c'.answer = some r) :
      ReadStep m op c (.more c')
  | finish {op : Op} {c : Call} {r : Reply} (hc : c.answer = some r) : ReadStep m op c (.done r)

theorem not_answer_of_checkActive {m : TxnManager} {T : TxnId} {e : Status}
    (h : checkActive m T = .error e) : (Reply.of e).isAnswer = false := by
  rcases checkActive_error h with rfl | rfl <;> decide

/-- **Reads and scans take no other steps.** -/
theorem Call.Serves.readStep {c : Call} (h : c.Serves op) (hop : op.isRead = true)
    {m m' : TxnManager} {timedOut : Bool} {o : Outcome}
    (hs : c.step m timedOut = some (m', o)) : ReadStep m op c o := by
  cases Call.steps hs with
  | readRefused hk | scanRefused hk => exact .refuse (not_answer_of_checkActive hk)
  | readOwn ht hb =>
    cases h
    exact .own ht hb
  | read ht hb =>
    cases h
    exact .toGet ht hb
  | readMissing hg =>
    cases h
    exact .missing hg
  | readFound hg =>
    cases h
    exact .found hg
  | recordLate | scanLate => exact .refuse (by decide)
  | record => exact .finish rfl
  | scan ht =>
    cases h
    exact .toScan ht
  | scanStore =>
    cases h
    exact .scanned
  | scanEnd => exact .finish (by simp [Call.answer, mergeRows])
  | @scanOwn _ _ _ _ _ _ bw hb =>
    refine .goOn rfl ?_
    by_cases hd : bw.isDelete = true
    · simp [Call.answer, mergeRows, mergeRow, hb, hd]
    · simp [Call.answer, mergeRows, mergeRow, hb, hd]
  | scanRow hb => exact .goOn rfl (by simp [Call.answer, mergeRows, mergeRow, hb])
  | «begin» | beginLog | beginInsert =>
    obtain ⟨ts, rfl⟩ := h
    cases hop
  | acquired | queued | lastLook | gaveUp | woken | bufferUnknown | bufferInactive | buffer =>
    have hread := (Op.txnId_of_asWrite h).2
    rw [hop] at hread
    cases hread
  | abortUnknown | abort | abortLog | releaseAll | releaseKeys => cases hop.symm.trans h.2.1
  | _ =>
    cases h
    cases hop

/-! ## The answers of a client -/

/-- An answer, with the writes of the reader before it. -/
structure Answer where
  own : List BufferedWrite
  op : Op
  reply : Reply
  deriving DecidableEq

/-- What a reply says of a row that was asked for. -/
def Op.rowOf (op : Op) (r : Reply) (key : Bytes) : Option Bytes :=
  match op with
  | .read _ _ _ => if r.status = .ok then some r.value else none
  | _ => r.rows.lookup key

/-- What the answer says of a row. -/
def Answer.row (a : Answer) (key : Bytes) : Option Bytes := a.op.rowOf a.reply key

/-- The answer to a transaction that an event reports. -/
def Event.answer (txnId : TxnId) (own : List BufferedWrite) : Event → List Answer
  | .called _ _ => []
  | .returned _ op r =>
    if op.isRead = true ∧ op.txnId = some txnId ∧ r.isAnswer = true then [⟨own, op, r⟩] else []

/-- The answers to the reads and scans of a transaction, the last one first. -/
def answers (txnId : TxnId) : List Event → List Answer
  | [] => []
  | e :: earlier => e.answer txnId (ownWrites txnId earlier) ++ answers txnId earlier

/-- An answer after a step was there before, or the call has just returned with it. -/
theorem answers_after_cases {s : Threads} {th : ThreadId} {m : TxnManager} {o : Outcome}
    {T : TxnId} {a : Answer} (ha : a ∈ answers T (s.after th op m o).history) :
    a ∈ answers T s.history ∨ ∃ r, o = .done r ∧ op.isRead = true ∧ op.txnId = some T ∧
      r.isAnswer = true ∧ a = ⟨ownWrites T s.history, op, r⟩ := by
  cases o with
  | more c => exact .inl ha
  | done r =>
    rcases List.mem_append.mp ha with hnew | hold
    · rw [Event.answer] at hnew
      split_ifs at hnew with hcond
      · exact .inr ⟨r, rfl, hcond.1, hcond.2.1, hcond.2.2, List.mem_singleton.mp hnew⟩
      · cases hnew
    · exact .inl hold

end TransDb.Txn
