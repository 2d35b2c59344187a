import TransDb.Txn.LifeCycle

/-!
# Operations and their calls

Which operation a call in progress belongs to, and which transaction it works on.

* `Call.Serves` — the call is one of this operation; `Call.Serves.next` says that it
  stays with it.
* `Call.target` — the transaction that a call works on.
* `Call.step_returns` — a call that hands out an id has just made the transaction.
* `Call.step_txns`, `Call.step_ids` — what a step does to `txns_`, and to the ids and the log.
-/

namespace TransDb.Txn

open Option Function Storage

/-- The write that an operation asks for. -/
def Op.asWrite : Op → Option (TxnId × BufferedWrite)
  | .write t tb k v => some (t, ⟨tb, k, v, false⟩)
  | .delete t tb k => some (t, ⟨tb, k, [], true⟩)
  | _ => none

/-- The operation is a read or a scan. -/
def Op.isRead : Op → Bool
  | .read _ _ _ => true
  | .scan _ _ => true
  | _ => false

/-- The call is one of this operation. -/
def Call.Serves (op : Op) : Call → Prop
  | .begin _ => ∃ ts, op = .begin ts
  | .beginLog _ _ => ∃ ts, op = .begin ts
  | .beginInsert _ _ => ∃ ts, op = .begin ts
  | .read t tb k => op = .read t tb k
  | .readStore t tb k _ => op = .read t tb k
  | .readRecord t tb k _ _ => op = .read t tb k
  | .scan t r => op = .scan t r
  | .scanStore t r _ _ => op = .scan t r
  | .scanRow t tb _ _ _ => ∃ r, op = .scan t r ∧ r.tableId = tb
  | .acquire t w => op.asWrite = some (t, w)
  | .wait t w => op.asWrite = some (t, w)
  | .buffer t w => op.asWrite = some (t, w)
  | .prepare t ts => op = .prepare t ts
  | .commit t ts => op = .commit t ts
  | .applyWrites t ts _ => op = .commit t ts
  | .abort t e => op.txnId = some t ∧ op.isRead = false ∧ (op.asWrite ≠ none → e ≠ .ok)
  | .abortLog t e => op.txnId = some t ∧ op.isRead = false ∧ (op.asWrite ≠ none → e ≠ .ok)
  | .releaseAll t e => op.txnId = some t ∧ op.isRead = false ∧ (op.asWrite ≠ none → e ≠ .ok)
  | .releaseKeys t _ e => op.txnId = some t ∧ op.isRead = false ∧ (op.asWrite ≠ none → e ≠ .ok)
  | .importPreparedTxn ts cts ws => op = .importPreparedTxn ts cts ws
  | .importLog _ ts cts ws _ => op = .importPreparedTxn ts cts ws

variable {m m' : TxnManager} {timedOut : Bool} {c : Call} {op : Op}

theorem Op.txnId_of_asWrite {T : TxnId} {w : BufferedWrite}
    (h : op.asWrite = some (T, w)) : op.txnId = some T ∧ op.isRead = false := by
  cases op with
  | write | delete =>
    cases h
    exact ⟨rfl, rfl⟩
  | _ => cases h

theorem Op.entry_serves (op : Op) : op.entry.Serves op := by
  cases op with
  | «begin» ts => exact ⟨ts, rfl⟩
  | abort t => exact ⟨rfl, rfl, fun hw => absurd rfl hw⟩
  | _ => rfl

section

variable {c' : Call} {o : Outcome}

/-- A read writes nothing. -/
theorem Call.Serves.not_buffer (h : c.Serves op) (hread : op.isRead = true) (T : TxnId)
    (w : BufferedWrite) : c ≠ .buffer T w := by
  rintro rfl
  cases hread.symm.trans (Op.txnId_of_asWrite h).2

/-- A call stays with its operation. -/
theorem Call.Serves.next (h : c.Serves op) (hs : c.step m timedOut = some (m', o))
    (hnext : o.next = some c') : c'.Serves op := by
  -- the end of a failed write
  have hfail : ∀ {t w} {e : Status}, op.asWrite = some (t, w) → e ≠ .ok →
      op.txnId = some t ∧ op.isRead = false ∧ (op.asWrite ≠ none → e ≠ .ok) :=
    fun hw he => ⟨(Op.txnId_of_asWrite hw).1, (Op.txnId_of_asWrite hw).2, fun _ => he⟩
  cases Call.steps hs with
  | gaveUp | bufferUnknown | bufferInactive =>
    cases hnext
    exact hfail h (by decide)
  | invalid | commitLog =>
    cases hnext
    cases (show op = _ from h)
    exact ⟨rfl, rfl, fun hw => absurd rfl hw⟩
  | scanStore =>
    cases hnext
    exact ⟨_, h, rfl⟩
  | _ => cases hnext <;> exact h

/-- A write that returns `OK` has just been buffered. -/
theorem Call.Serves.write_done (h : c.Serves op) {r : Reply}
    (hs : c.step m timedOut = some (m', .done r)) (hok : r.status = .ok) {T : TxnId}
    {w : BufferedWrite} (hw : op.asWrite = some (T, w)) : c = .buffer T w := by
  have hne : op.asWrite ≠ none := by rw [hw]; simp
  cases Call.steps hs with
  | buffer =>
    cases hw.symm.trans h
    rfl
  | abortUnknown | releaseKeys => exact absurd hok (h.2.2 hne)
  | beginInsert =>
    obtain ⟨ts, rfl⟩ := h
    cases hw
  | scanEnd | scanLate =>
    obtain ⟨r, rfl, -⟩ := h
    cases hw
  | _ =>
    cases (show op = _ from h)
    cases hw

end

/-- The transaction that a call works on, if it does not make it itself. -/
def Call.target : Call → Option TxnId
  | .begin _ => none
  | .beginLog _ _ => none
  | .beginInsert _ _ => none
  | .importPreparedTxn _ _ _ => none
  | .importLog _ _ _ _ _ => none
  | .read t _ _ => some t
  | .readStore t _ _ _ => some t
  | .readRecord t _ _ _ _ => some t
  | .scan t _ => some t
  | .scanStore t _ _ _ => some t
  | .scanRow t _ _ _ _ => some t
  | .acquire t _ => some t
  | .wait t _ => some t
  | .buffer t _ => some t
  | .prepare t _ => some t
  | .commit t _ => some t
  | .applyWrites t _ _ => some t
  | .abort t _ => some t
  | .abortLog t _ => some t
  | .releaseAll t _ => some t
  | .releaseKeys t _ _ => some t

theorem Call.Serves.target (h : c.Serves op) : c.target = op.txnId := by
  cases c with
  | «begin» | beginLog | beginInsert =>
    obtain ⟨ts, rfl⟩ := h
    rfl
  | scanRow =>
    obtain ⟨r, rfl, -⟩ := h
    rfl
  | acquire | wait | buffer => exact (Op.txnId_of_asWrite h).1.symm
  | abort | abortLog | releaseAll | releaseKeys => exact h.1.symm
  | _ =>
    cases (show op = _ from h)
    rfl

/-- The call is about to decide whether there is a transaction to commit or abort. -/
def Call.isCheck : Call → Bool
  | .commit _ _ => true
  | .abort _ _ => true
  | _ => false

/-- The writes that a commit has still to put. -/
def Call.toPut : Call → List BufferedWrite
  | .applyWrites _ _ rest => rest
  | _ => []

/-- `Commit` and `Abort` check once. -/
theorem Call.Serves.isCheck_next {c c' : Call} (h : c.Serves op)
    (hop : (∃ l, op = .abort l) ∨ ∃ l ts, op = .commit l ts)
    (hs : c.step m timedOut = some (m', .more c')) : c'.isCheck = false := by
  have hwrite : op.asWrite = none := by rcases hop with ⟨l, rfl⟩ | ⟨l, ts, rfl⟩ <;> rfl
  cases Call.steps hs with
  | gaveUp => cases hwrite.symm.trans h
  | _ => rfl

/-- The store changes only where `ApplyWrites` puts a write. -/
theorem Call.step_store {o : Outcome} (hs : c.step m timedOut = some (m', o)) :
    (∃ t ts w rest, c = .applyWrites t ts (w :: rest) ∧ m'.store = w.apply m.store ts ∧
      o = .more (.applyWrites t ts rest)) ∨
    (m'.store = m.store ∧ ∀ t ts w rest, c ≠ .applyWrites t ts (w :: rest)) := by
  cases Call.steps hs with
  | applyWrite => exact .inl ⟨_, _, _, _, rfl, rfl, rfl⟩
  | _ => exact .inr ⟨rfl, by simp⟩

variable {l : TxnId} {ts : Timestamp} {r : Reply}

/-- Past the check a commit has the same writes to put, unless it puts one. -/
theorem Call.Serves.toPut_next {c c' : Call} (h : c.Serves (.commit l ts))
    (hcheck : c.isCheck = false) (hs : c.step m timedOut = some (m', .more c')) :
    (∃ w rest, c = .applyWrites l ts (w :: rest) ∧ c' = .applyWrites l ts rest) ∨
    ((∀ t ts w rest, c ≠ .applyWrites t ts (w :: rest)) ∧ c'.toPut = c.toPut) := by
  cases Call.steps hs with
  | applyWrite =>
    cases h
    exact .inl ⟨_, _, rfl, rfl⟩
  | commit => cases hcheck
  | _ => exact .inr ⟨by simp, rfl⟩

/-- A commit returns when nothing is left to put. -/
theorem Call.toPut_of_done (hs : c.step m timedOut = some (m', .done r)) : c.toPut = [] := by
  cases Call.steps hs <;> rfl

/-- A call that returns an id has just inserted the transaction. -/
theorem Call.step_returns
    (hs : c.step m timedOut = some (m', .done r)) {T : TxnId} (hr : r.txnId = some T) :
    m'.txns T ≠ none ∧
      ((∃ ts, c = .beginInsert T ts) ∨ ∃ ts cts ws, c = .importLog T ts cts ws []) := by
  cases Call.steps hs with
  | beginInsert =>
    cases hr
    exact ⟨by simp [TxnManager.setTxn], .inl ⟨_, rfl⟩⟩
  | importInsert =>
    cases hr
    exact ⟨by simp [TxnManager.setTxn], .inr ⟨_, _, _, rfl⟩⟩
  | readOwn => split at hr <;> cases hr
  | _ => cases hr

/-- A call that makes a transaction hands out its id. -/
theorem Call.Serves.hands_out (h : c.Serves op)
    (hop : (∃ ts, op = .begin ts) ∨ ∃ ts cts ws, op = .importPreparedTxn ts cts ws)
    (hs : c.step m timedOut = some (m', .done r)) :
    ∃ l, r.txnId = some l := by
  have htarget : c.target = none := by
    rcases hop with ⟨ts, rfl⟩ | ⟨ts, cts, ws, rfl⟩ <;> exact h.target
  cases Call.steps hs with
  | beginInsert | importInsert => exact ⟨_, rfl⟩
  | _ => cases htarget

/-! ## What a step does to `txns_` -/

/-- The transaction that a call is making. -/
def Call.making : Call → Option TxnId
  | .beginLog T _ => some T
  | .beginInsert T _ => some T
  | .importLog T _ _ _ _ => some T
  | _ => none

section Step

variable {o : Outcome}

section

variable (hs : c.step m timedOut = some (m', o))
include hs

/-- An entry of `txns_` is removed, changed or made by the call that works on it. -/
theorem Call.step_txns :
    m'.txns = m.txns ∨
    (∃ T, c.target = some T ∧ m'.txns = update m.txns T none) ∨
    (∃ T t t', c.target = some T ∧ m.txns T = some t ∧
      m'.txns = update m.txns T (some t') ∧
      (t'.writeSet = t.writeSet ∨ ∃ w, c = .buffer T w ∧ t'.writeSet = t.writeSet ++ [w])) ∨
    ∃ T t' r, c.making = some T ∧ o = .done r ∧ r.txnId = some T ∧
      m'.txns = update m.txns T (some t') ∧
      (t'.writeSet = [] ∨ ∃ ts cts ws, c = .importLog T ts cts ws [] ∧ t'.writeSet = ws) := by
  cases Call.steps hs with
  | beginInsert => exact .inr (.inr (.inr ⟨_, _, _, rfl, rfl, rfl, rfl, .inl rfl⟩))
  | importInsert =>
    exact .inr (.inr (.inr ⟨_, _, _, rfl, rfl, rfl, rfl, .inr ⟨_, _, _, rfl, rfl⟩⟩))
  | record ht | scanRow _ ht | prepare ht =>
    exact .inr (.inr (.inl ⟨_, _, _, rfl, ht, rfl, .inl rfl⟩))
  | buffer ht => exact .inr (.inr (.inl ⟨_, _, _, rfl, ht, rfl, .inr ⟨_, rfl, rfl⟩⟩))
  | invalid | commit | abort => exact .inr (.inl ⟨_, rfl, rfl⟩)
  | _ => exact .inl rfl

/-- A record belongs to the transaction that the call works on or makes; ids are drawn in
order. -/
theorem Call.step_ids :
    (m'.wal.records = m.wal.records ∨ ∃ r, m'.wal.records = m.wal.records ++ [r] ∧
      (c.target = some r.txnId ∨ c.making = some r.txnId)) ∧
    (m'.nextTxnId = m.nextTxnId ∨ m'.nextTxnId = m.nextTxnId + 1) := by
  cases Call.steps hs with
  | «begin» | importPreparedTxn => exact ⟨.inl rfl, .inr rfl⟩
  | beginLog | importLog => exact ⟨.inr ⟨_, rfl, .inr rfl⟩, .inl rfl⟩
  | buffer | prepare | commitLog | abortLog => exact ⟨.inr ⟨_, rfl, .inl rfl⟩, .inl rfl⟩
  | _ => exact ⟨.inl rfl, .inl rfl⟩

end

end Step

/-! ## The end of a `Prepare` -/

/-- The call is going to return an error. -/
def Call.fails : Call → Bool
  | .abort _ e => decide (e.code ≠ .ok)
  | .abortLog _ e => decide (e.code ≠ .ok)
  | .releaseAll _ e => decide (e.code ≠ .ok)
  | .releaseKeys _ _ e => decide (e.code ≠ .ok)
  | _ => false

theorem Call.fails_next {c c' : Call} (h : c.fails = true)
    (hs : c.step m timedOut = some (m', .more c')) : c'.fails = true := by
  cases Call.steps hs with
  | abort | abortLog | releaseAll => exact h
  | _ => cases h

theorem Call.fails_done (h : c.fails = true)
    (hs : c.step m timedOut = some (m', .done r)) : r.status.code ≠ .ok := by
  cases Call.steps hs with
  | abortUnknown | releaseKeys => exact of_decide_eq_true h
  | _ => cases h

/-- A `Prepare` that goes on is going to fail. -/
theorem Call.prepare_next {c' : Call}
    (hs : (Call.prepare l ts).step m timedOut = some (m', .more c')) : c'.fails = true := by
  cases Call.steps hs
  rfl

/-- A `Prepare` that returns has prepared the transaction. -/
theorem Call.prepare_done
    (hs : (Call.prepare l ts).step m timedOut = some (m', .done r)) (hr : r.status.code = .ok) :
    ∃ t, m'.txns l = some t ∧ t.state = .prepared ∧ t.prepareCommitTs = ts := by
  cases Call.steps hs with
  | prepareRefused he => rcases checkActive_error he with rfl | rfl <;> cases hr
  | prepare => exact ⟨_, update_self .., rfl, rfl⟩

/-! ## Calls that never wait -/

/-- The steps that a call of `Abort`, `Commit` or `ImportPreparedTxn` has still to make. -/
def Call.stepsLeft (m : TxnManager) : Call → ℕ
  | .commit l _ => ((m.txns l).map fun t => t.writeSet.length).getD 0 + 4
  | .applyWrites _ _ rest => rest.length + 3
  | .abort _ _ => 4
  | .abortLog _ _ => 3
  | .releaseAll _ _ => 2
  | .releaseKeys _ _ _ => 1
  | .importPreparedTxn s c ws => (importRecords s c ws).length + 2
  | .importLog _ _ _ _ rest => rest.length + 1
  | _ => 0

/-- `Abort`, `Commit` and `ImportPreparedTxn` come to their end. -/
theorem Call.Serves.goes_on (h : c.Serves op)
    (hop : (∃ l, op = .abort l) ∨ (∃ l ts, op = .commit l ts) ∨
      ∃ ts cts ws, op = .importPreparedTxn ts cts ws) (m : TxnManager) :
    ∃ m' o, c.step m false = some (m', o) ∧ 0 < c.stepsLeft m ∧
      ∀ c', o = .more c' → c'.stepsLeft m' < c.stepsLeft m := by
  have hwrite : op.asWrite = none := by
    rcases hop with ⟨l, rfl⟩ | ⟨l, ts, rfl⟩ | ⟨ts, cts, ws, rfl⟩ <;> rfl
  cases c with
  | acquire | wait | buffer =>
    have := hwrite.symm.trans h
    cases this
  | commit l ts =>
    cases ht : m.txns l with
    | none => exact ⟨m, _, by simp only [Call.step, ht]; rfl, Nat.succ_pos _, by rintro c' ⟨⟩⟩
    | some t =>
      by_cases hp : t.state = .prepared
      · refine ⟨_, _, by simp only [Call.step, ht, hp, ne_eq, not_true_eq_false, if_false]; rfl,
          Nat.succ_pos _, ?_⟩
        rintro c' ⟨⟩
        simp [Call.stepsLeft, ht]
      · exact ⟨m, _, by simp only [Call.step, ht, ne_eq, hp, not_false_eq_true, if_true]; rfl,
          Nat.succ_pos _, by rintro c' ⟨⟩⟩
  | applyWrites l ts rest =>
    cases rest with
    | nil | cons w rest =>
      refine ⟨_, _, rfl, Nat.succ_pos _, ?_⟩
      rintro c' ⟨⟩
      simp [Call.stepsLeft]
  | abort l e =>
    cases ht : m.txns l with
    | none => exact ⟨m, _, by simp only [Call.step, ht]; rfl, Nat.succ_pos _, by rintro c' ⟨⟩⟩
    | some t =>
      refine ⟨_, _, by simp only [Call.step, ht]; rfl, Nat.succ_pos _, ?_⟩
      rintro c' ⟨⟩
      simp [Call.stepsLeft]
  | abortLog l e | releaseAll l e | importPreparedTxn ts cts ws =>
    refine ⟨_, _, rfl, Nat.succ_pos _, ?_⟩
    rintro c' ⟨⟩
    simp [Call.stepsLeft]
  | releaseKeys l ks e => exact ⟨_, _, rfl, Nat.succ_pos _, by rintro c' ⟨⟩⟩
  | importLog l ts cts ws rest =>
    cases rest with
    | nil => exact ⟨_, _, rfl, Nat.succ_pos _, by rintro c' ⟨⟩⟩
    | cons r rest =>
      refine ⟨_, _, rfl, Nat.succ_pos _, ?_⟩
      rintro c' ⟨⟩
      simp [Call.stepsLeft]
  | scanRow =>
    obtain ⟨r, rfl, -⟩ := h
    rcases hop with ⟨l, hop⟩ | ⟨l, ts, hop⟩ | ⟨ts, cts, ws, hop⟩ <;> cases hop
  | «begin» | beginLog | beginInsert =>
    obtain ⟨ts, rfl⟩ := h
    rcases hop with ⟨l, hop⟩ | ⟨l, ts, hop⟩ | ⟨ts, cts, ws, hop⟩ <;> cases hop
  | _ =>
    cases h
    rcases hop with ⟨l, hop⟩ | ⟨l, ts, hop⟩ | ⟨ts, cts, ws, hop⟩ <;> cases hop

/-- What is in `txns_` was there before, or the call has just made it. -/
theorem Call.txns_before {o : Outcome}
    (hs : c.step m timedOut = some (m', o)) (h : m'.txns l ≠ none) :
    m.txns l ≠ none ∨ ∃ r, o = .done r ∧ r.txnId = some l := by
  -- another entry than the one that the call works on
  have hother : ∀ {T : TxnId} {x : Option Transaction}, m'.txns = update m.txns T x →
      l ≠ T → m.txns l ≠ none := by
    intro T x hset hl
    rw [hset, update_of_ne hl] at h
    exact h
  rcases Call.step_txns hs with hsame | ⟨T, -, hset⟩ | ⟨T, t, t', -, ht, hset, -⟩ |
    ⟨T, t', r, -, ho, hr, hset, -⟩
  · rw [hsame] at h
    exact .inl h
  · refine .inl (hother hset ?_)
    rintro rfl
    rw [hset] at h
    exact h (update_self ..)
  · by_cases hl : l = T
    · subst hl
      exact .inl (by rw [ht]; exact some_ne_none t)
    · exact .inl (hother hset hl)
  · by_cases hl : l = T
    · subst hl
      exact .inr ⟨r, ho, hr⟩
    · exact .inl (hother hset hl)

end TransDb.Txn
