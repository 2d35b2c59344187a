import TransDb.Txn.LockSafety
import TransDb.Txn.Threads

/-!
# Prepared transactions and their locks

A transaction manager over several lifetimes: any number of threads call it, with any ids, it can
crash at any point and lose the end of its log, and it starts again with `Recover`.  A
transaction in `txns_` owns the locks of its writes, unless it was imported with writes, a
write comes to its check when its transaction is prepared, or an id is handed out while a call
that was made with it is past its lock.

* `Managed`, `managed` — the machine; `Recover` takes one turn of its loop at a time.
* `Locked` — the invariant, with what each call in progress needs (`Call.Needs`).
* `prepared_own_locks` — **prepared transactions own their locks**; hence nobody else has
  written, or can write, their rows.
* `prepared_without_locks` — an import takes no locks, and a late write releases them.
-/

namespace TransDb.Txn

open Option List Function Storage

/-! ## The machine -/

/-- A manager with the calls in progress. -/
structure Managed where
  mgr : TxnManager
  calls : ThreadId → Option Call
  /-- What the main loop of `Recover` has still to go through. -/
  recovering : List TxnId

/-- What can happen to a manager. -/
inductive ManagedAction where
  | start (th : ThreadId) (op : Op)
  | step (th : ThreadId) (timedOut : Bool)
  /-- The process crashes and starts again; `kept` records of the log are left. -/
  | crash (kept : ℕ)
  | recover

namespace Managed

/-- An empty manager. -/
def init : Managed := ⟨.empty, fun _ => none, []⟩

/-- The thread's call goes on or returns, and the manager is now `m`. -/
def after (s : Managed) (th : ThreadId) (m : TxnManager) (o : Outcome) : Managed :=
  { s with mgr := m, calls := update s.calls th o.next }

/-- The store is on disk; the beginning of the log is left. -/
def crashed (s : Managed) (kept : ℕ) : Managed :=
  let records := s.mgr.wal.records.take kept
  { mgr := { TxnManager.reopen records with
      store := s.mgr.store
      nextTxnId := maxTxnId records + 1 }
    calls := fun _ => none
    recovering := txnOrder records }

/-- One turn, or a crash. -/
def step (s : Managed) : ManagedAction → Option Managed
  | .start th op =>
    if s.recovering = [] ∧ s.calls th = none then
      some { s with calls := update s.calls th (some op.entry) }
    else none
  | .step th timedOut =>
    (s.calls th).bind fun c => (c.step s.mgr timedOut).map fun out => s.after th out.1 out.2
  | .crash kept => some (s.crashed kept)
  | .recover =>
    match s.recovering with
    | [] => none
    | T :: rest =>
      match recoverTxn s.mgr.wal.records s.mgr T with
      | .error _ => none
      | .ok m => some { s with mgr := m, recovering := rest }

end Managed

/-- The machine of a manager over several lifetimes. -/
def managed : Machine Managed ManagedAction := ⟨Managed.init, Managed.step⟩

/-! ## Who owns the locks -/

/-- The transaction whose locks the call counts on, or is going to release. -/
def Call.claims : Call → Option TxnId
  | .buffer T _ => some T
  | .abortLog T _ => some T
  | .applyWrites T _ _ => some T
  | .releaseAll T _ => some T
  | .releaseKeys T _ _ => some T
  | _ => none

/-- What a call in progress needs of the locks and of `txns_`. -/
def Call.Needs (m : TxnManager) : Call → Prop
  | .beginLog T _ => 0 < T
  | .beginInsert T _ => 0 < T
  | .buffer T w => m.txns T ≠ none → m.lockMgr.owner w.lockKey = T
  | .abortLog T _ => 0 < T ∧ m.txns T = none
  | .applyWrites T _ _ => 0 < T ∧ m.txns T = none
  | .releaseAll T _ => m.txns T = none
  | .releaseKeys T _ _ => m.txns T = none
  | .importPreparedTxn _ _ ws => ws = []
  | .importLog T _ _ ws _ => 0 < T ∧ ws = []
  | _ => True

/-- No call in progress claims the locks of the transaction. -/
def Managed.Unclaimed (s : Managed) (T : TxnId) : Prop :=
  ∀ th c, s.calls th = some c → c.claims ≠ some T

/-- Who is in `txns_` owns the locks of its writes. -/
structure Locked (s : Managed) : Prop where
  positive : 0 < s.mgr.nextTxnId
  records : ∀ r ∈ s.mgr.wal.records, 0 < r.txnId
  txns : ∀ T t, s.mgr.txns T = some t →
    0 < T ∧ ∀ w ∈ t.writeSet, s.mgr.lockMgr.owner w.lockKey = T
  call : ∀ th c, s.calls th = some c → c.Needs s.mgr
  recovering : ∀ T ∈ s.recovering, 0 < T
  /-- Nobody calls before `Recover` is over. -/
  alone : s.recovering ≠ [] → ∀ th, s.calls th = none

theorem Locked.init : Locked Managed.init where
  positive := Nat.one_pos
  records _ h := by cases h
  txns _ _ h := by cases h
  call _ _ h := by cases h
  recovering _ h := by cases h
  alone h := absurd rfl h

theorem Managed.step_cases {s s' : Managed} {a : ManagedAction} (h : s.step a = some s') :
    (∃ th op, a = .start th op ∧ s.recovering = [] ∧ s.calls th = none ∧
      s' = { s with calls := update s.calls th (some op.entry) }) ∨
    (∃ th timedOut c m o, a = .step th timedOut ∧ s.calls th = some c ∧
      c.step s.mgr timedOut = some (m, o) ∧ s' = s.after th m o) ∨
    (∃ kept, a = .crash kept ∧ s' = s.crashed kept) ∨
    ∃ T rest m, a = .recover ∧ s.recovering = T :: rest ∧
      recoverTxn s.mgr.wal.records s.mgr T = .ok m ∧
      s' = { s with mgr := m, recovering := rest } := by
  cases a with
  | start th op =>
    simp only [step] at h
    split_ifs at h with hmay
    cases h
    exact .inl ⟨th, op, rfl, hmay.1, hmay.2, rfl⟩
  | step th timedOut =>
    obtain ⟨c, hc, hmap⟩ := bind_eq_some_iff.mp h
    obtain ⟨⟨m, o⟩, hs, rfl⟩ := map_eq_some_iff.mp hmap
    exact .inr (.inl ⟨th, timedOut, c, m, o, rfl, hc, hs, rfl⟩)
  | crash kept =>
    cases h
    exact .inr (.inr (.inl ⟨kept, rfl, rfl⟩))
  | recover =>
    simp only [step] at h
    cases hrec : s.recovering with
    | nil =>
      rw [hrec] at h
      cases h
    | cons T rest =>
      simp only [hrec] at h
      cases hm : recoverTxn s.mgr.wal.records s.mgr T with
      | error e =>
        rw [hm] at h
        cases h
      | ok m =>
        rw [hm] at h
        cases h
        exact .inr (.inr (.inr ⟨T, rest, m, rfl, rfl, hm, rfl⟩))

/-- The call is about to put the transaction into `txns_`. -/
def Call.Inserts (c : Call) (T : TxnId) : Prop :=
  (∃ ts, c = .beginInsert T ts) ∨ ∃ ts cts ws, c = .importLog T ts cts ws []

namespace Locked

variable {s : Managed} {th th' : ThreadId} {c c' : Call} {m : TxnManager} {o : Outcome}
  {timedOut : Bool} {T : TxnId}

section Step

variable (h : Locked s) (hc : s.calls th = some c) (hs : c.step s.mgr timedOut = some (m, o))
include h hc hs

/-- A transaction in `txns_` keeps the locks that it has. -/
theorem keeps {t : Transaction} (ht : s.mgr.txns T = some t) {lk : Bytes}
    (hown : s.mgr.lockMgr.owner lk = T) : m.lockMgr.owner lk = T := by
  have hpos := (h.txns T t ht).1
  rcases c.step_owner hs lk with heq | h0 | ⟨T', keys, r, rfl, hT'⟩
  · rw [heq, hown]
  · rw [hown] at h0
    exact absurd h0 hpos.ne'
  · -- who releases is not in `txns_`
    rw [hown] at hT'
    subst hT'
    have hout : s.mgr.txns T = none := h.call th _ hc
    rw [ht] at hout
    cases hout

/-- A record belongs to a transaction. -/
theorem records_step : ∀ r ∈ m.wal.records, 0 < r.txnId := by
  have happend : ∀ r, 0 < r.txnId → ∀ r' ∈ s.mgr.wal.records ++ [r], 0 < r'.txnId :=
    fun r hr => forall_mem_append.mpr ⟨h.records, forall_mem_singleton.mpr hr⟩
  have hneeds := h.call th c hc
  cases Call.steps hs with
  | buffer ht | prepare ht => exact happend _ (h.txns _ _ ht).1
  | beginLog => exact happend _ hneeds
  | importLog | commitLog | abortLog => exact happend _ hneeds.1
  | _ => exact h.records

omit h hc in
/-- A transaction that is not in `txns_` does not come back while its locks are claimed. -/
theorem stays_out (hfresh : ∀ T, c.Inserts T → s.Unclaimed T) (hc' : s.calls th' = some c')
    (hclaims : c'.claims = some T) (hout : s.mgr.txns T = none) : m.txns T = none := by
  rcases c.step_txns hs with heq | ⟨T', -, heq⟩ | ⟨T', t, t', -, ht, heq, -⟩ |
    ⟨T', t', r, -, rfl, hr, heq, -⟩
  · rw [heq, hout]
  · rw [heq]
    by_cases hT : T = T'
    · rw [hT, update_self]
    · rw [update_of_ne hT, hout]
  · have hT : T ≠ T' := by
      rintro rfl
      rw [hout] at ht
      cases ht
    rw [heq, update_of_ne hT, hout]
  · have hT : T ≠ T' := by
      rintro rfl
      exact hfresh T (Call.step_returns hs hr).2 th' c' hc' hclaims
    rw [heq, update_of_ne hT, hout]

/-- The step of another thread keeps what a call needs. -/
theorem needs_other (hfresh : ∀ T, c.Inserts T → s.Unclaimed T) (hc' : s.calls th' = some c') :
    c'.Needs m := by
  have hneeds := h.call th' c' hc'
  cases c' with
  | buffer T w =>
    intro hin
    cases ht : s.mgr.txns T with
    | none => exact absurd (stays_out hs hfresh hc' rfl ht) hin
    | some t => exact h.keeps hc hs ht (hneeds (by rw [ht]; simp))
  | abortLog T r | applyWrites T ts rest =>
    exact ⟨hneeds.1, stays_out hs hfresh hc' rfl hneeds.2⟩
  | releaseAll T r | releaseKeys T keys r => exact stays_out hs hfresh hc' rfl hneeds
  | beginLog | beginInsert | importPreparedTxn | importLog => exact hneeds
  | _ => trivial

/-- What the next step of a call needs is there after the step before it. -/
theorem needs_next
    (hactive : ∀ T w t, c = .buffer T w → s.mgr.txns T = some t → t.state = .active)
    (hnext : o.next = some c') : c'.Needs m := by
  have hneeds := h.call th c hc
  cases Call.steps hs with
  | acquired hgot =>
    cases hnext
    exact fun _ => s.mgr.lockMgr.owner_of_acquire hgot
  | lastLook hgot =>
    cases hnext
    exact fun _ => (s.mgr.lockMgr.owner_timeout _ _ _).trans (s.mgr.lockMgr.owner_of_timeout hgot)
  | woken hl =>
    cases hnext
    obtain ⟨hown, hsame⟩ := s.mgr.lockMgr.owner_wake hl
    exact fun _ => (hsame _).trans hown
  | bufferUnknown ht =>
    cases hnext
    exact ht
  | bufferInactive ht hact => exact absurd (hactive _ _ _ rfl ht) hact
  | invalid ht | commit ht | abort ht =>
    cases hnext
    exact ⟨(h.txns _ _ ht).1, update_self ..⟩
  | «begin» =>
    cases hnext
    exact h.positive
  | importPreparedTxn =>
    cases hnext
    exact ⟨h.positive, hneeds⟩
  | abortLog | commitLog =>
    cases hnext
    exact hneeds.2
  | beginLog | releaseAll | applyWrite | importLog =>
    cases hnext
    exact hneeds
  | _ => cases hnext <;> trivial

/-- After a step the transactions in `txns_` own their locks. -/
theorem owned_step {t : Transaction} (ht : m.txns T = some t) :
    0 < T ∧ ∀ w ∈ t.writeSet, m.lockMgr.owner w.lockKey = T := by
  have hneeds := h.call th c hc
  -- an entry that was there before, with the same writes
  have hold : ∀ t0, s.mgr.txns T = some t0 → t.writeSet = t0.writeSet →
      0 < T ∧ ∀ w ∈ t.writeSet, m.lockMgr.owner w.lockKey = T := by
    intro t0 ht0 hws
    obtain ⟨hpos, howned⟩ := h.txns T t0 ht0
    exact ⟨hpos, fun w hw => h.keeps hc hs ht0 (howned w (hws ▸ hw))⟩
  rcases c.step_txns hs with heq | ⟨T', -, heq⟩ | ⟨T', t0, t', -, ht0, heq, hws⟩ |
    ⟨T', t', r, hmaking, -, -, heq, hws⟩
  · rw [heq] at ht
    exact hold t ht rfl
  · rw [heq] at ht
    rcases update_eq_cases ht with ⟨-, ⟨⟩⟩ | ⟨-, ht⟩
    exact hold t ht rfl
  · rw [heq] at ht
    rcases update_eq_cases ht with ⟨rfl, ht'⟩ | ⟨-, ht⟩
    · cases ht'
      rcases hws with hws | ⟨w0, rfl, hws⟩
      · exact hold t0 ht0 hws
      · obtain ⟨hpos, howned⟩ := h.txns T t0 ht0
        refine ⟨hpos, fun w hw => h.keeps hc hs ht0 ?_⟩
        rw [hws] at hw
        rcases mem_append.mp hw with hw | hw
        · exact howned w hw
        · obtain rfl := mem_singleton.mp hw
          exact hneeds (by rw [ht0]; simp)
    · exact hold t ht rfl
  · rw [heq] at ht
    rcases update_eq_cases ht with ⟨rfl, ht'⟩ | ⟨-, ht⟩
    · cases ht'
      have hempty : t.writeSet = [] := by
        rcases hws with hws | ⟨ts, cts, ws, rfl, hws⟩
        · exact hws
        · exact hws.trans hneeds.2
      have hpos : 0 < T := by
        cases c with
        | beginLog T' ts | beginInsert T' ts =>
          cases hmaking
          exact hneeds
        | importLog T' ts cts ws rest =>
          cases hmaking
          exact hneeds.1
        | _ => cases hmaking
      exact ⟨hpos, by simp [hempty]⟩
    · exact hold t ht rfl

/-- **A call's step keeps the locks with the transactions in `txns_`**, if a write that
comes to its check finds an active transaction or none, and nobody claims the locks of a
transaction that is put into `txns_`. -/
theorem step (hactive : ∀ T w t, c = .buffer T w → s.mgr.txns T = some t → t.state = .active)
    (hfresh : ∀ T, c.Inserts T → s.Unclaimed T) : Locked (s.after th m o) where
  positive := by
    rcases (c.step_ids hs).2 with heq | heq
    · exact heq ▸ h.positive
    · exact heq ▸ Nat.succ_pos _
  records := h.records_step hc hs
  txns _ _ ht := h.owned_step hc hs ht
  call th' c' hc' := by
    rcases update_eq_cases hc' with ⟨-, hnext⟩ | ⟨-, hc'⟩
    · exact h.needs_next hc hs hactive hnext
    · exact h.needs_other hc hs hfresh hc'
  recovering := h.recovering
  alone hne := by
    have hnone := h.alone hne th
    rw [hc] at hnone
    cases hnone

end Step

/-- A new call has what it needs, if it is no import of writes. -/
theorem start (h : Locked s) (hidle : s.recovering = []) {op : Op}
    (himport : ∀ ts cts ws, op = .importPreparedTxn ts cts ws → ws = []) :
    Locked { s with calls := update s.calls th (some op.entry) } := by
  refine { h with call := fun th' c' hc' => ?_, alone := fun hne => absurd hidle hne }
  rcases update_eq_cases hc' with ⟨-, hc'⟩ | ⟨-, hc'⟩
  · obtain rfl := some.inj hc'
    cases op with
    | importPreparedTxn ts cts ws => exact himport ts cts ws rfl
    | _ => trivial
  · exact h.call th' c' hc'

/-- A crash leaves nobody in `txns_`. -/
theorem crashed (h : Locked s) (kept : ℕ) : Locked (s.crashed kept) where
  positive := Nat.succ_pos _
  records r hr := h.records r (mem_of_mem_take hr)
  txns _ _ ht := by cases ht
  call _ _ hc := by cases hc
  recovering T hT := by
    replace hT : T ∈ txnOrder (s.mgr.wal.records.take kept) := hT
    obtain ⟨e, he⟩ := exists_mem_of_ne_nil _ (mem_txnOrder.mp hT)
    obtain ⟨r, hr, -⟩ := mem_map.mp he
    obtain ⟨hmem, htxn⟩ := mem_filter.mp hr
    rw [← of_decide_eq_true htxn]
    exact h.records r (mem_of_mem_take hmem)
  alone _ _ := rfl

/-- A turn of `Recover` gives a prepared transaction its locks and takes none away. -/
theorem recover (h : Locked s) {rest : List TxnId} (hrec : s.recovering = T :: rest)
    (hm : recoverTxn s.mgr.wal.records s.mgr T = .ok m) :
    Locked { s with mgr := m, recovering := rest } := by
  have hidle := h.alone (by rw [hrec]; exact cons_ne_nil _ _)
  have hT : 0 < T := h.recovering T (by rw [hrec]; exact mem_cons_self)
  obtain ⟨hwal, hnext, hcases⟩ := recoverTxn_cases hm
  constructor
  case positive => exact hnext ▸ h.positive
  case records => exact fun r hr => h.records r (hwal ▸ hr)
  case txns =>
    intro T' t ht
    replace ht : m.txns T' = some t := ht
    rcases hcases with ⟨htxns, hlocks⟩ | ⟨t', htxns, hlocks⟩
    · obtain ⟨hpos, hown⟩ := h.txns T' t (htxns ▸ ht)
      exact ⟨hpos, fun w hw => by rw [hlocks]; exact hown w hw⟩
    · obtain ⟨howned, hkept⟩ := acquireAll_owner hT.ne' hlocks
      rw [htxns] at ht
      rcases update_eq_cases ht with ⟨rfl, hnew⟩ | ⟨-, ht⟩
      · cases hnew
        exact ⟨hT, fun w hw => howned (w.tableId, w.key) (mem_uniqueKeys.mpr ⟨w, hw, rfl⟩)⟩
      · obtain ⟨hpos, hown⟩ := h.txns T' t ht
        refine ⟨hpos, fun w hw => ?_⟩
        rw [hkept _ (by rw [hown w hw]; exact hpos.ne'), hown w hw]
  case call =>
    intro th c hc
    rw [hidle th] at hc
    cases hc
  case recovering => exact fun T' hT' => h.recovering T' (by rw [hrec]; exact mem_cons_of_mem _ hT')
  case alone => exact fun _ th => hidle th

end Locked

/-! ## Runs -/

/-- No import brings writes, a write that comes to its check finds its transaction active, or
not there, and a transaction that is put into `txns_` is free in this sense. -/
def keepsLocksIf (free : Managed → TxnId → Prop) (s : Managed) : ManagedAction → Prop
  | .start _ (.importPreparedTxn _ _ ws) => ws = []
  | .step th _ =>
    match s.calls th with
    | some (.buffer T _) => ∀ t ∈ s.mgr.txns T, t.state = .active
    | some (.beginInsert T _) => free s T
    | some (.importLog T _ _ _ []) => free s T
    | _ => True
  | _ => True

/-- An id is not handed out while a call that was made with it is past its lock. -/
def keepsLocks : Managed → ManagedAction → Prop := keepsLocksIf Managed.Unclaimed

theorem run_locked {acts : List ManagedAction} {s : Managed}
    (hC : managed.Meets keepsLocks managed.init acts) (h : managed.run acts = some s) : Locked s := by
  refine Machine.inv_run_of_meets Locked.init ?_ hC h
  intro s a s' hI hkeeps hstep
  rcases Managed.step_cases hstep with ⟨th, op, rfl, hidle, -, rfl⟩ |
    ⟨th, timedOut, c, m, o, rfl, hc, hs, rfl⟩ | ⟨kept, rfl, rfl⟩ | ⟨T, rest, m, rfl, hrec, hm, rfl⟩
  · refine hI.start hidle ?_
    rintro ts cts ws rfl
    exact hkeeps
  · simp only [keepsLocks, keepsLocksIf, hc] at hkeeps
    refine hI.step hc hs ?_ ?_
    · rintro T w t rfl ht
      exact hkeeps t ht
    · rintro T (⟨ts, rfl⟩ | ⟨ts, cts, ws, rfl⟩)
      · exact hkeeps
      · exact hkeeps
  · exact hI.crashed kept
  · exact hI.recover hrec hm

/-- **Prepared transactions own their locks**, as all do that are in `txns_`.  No other one
there has a write of the same row, and none is past the lock of such a write. -/
theorem prepared_own_locks {acts : List ManagedAction} {s : Managed}
    (hC : managed.Meets keepsLocks managed.init acts) (h : managed.run acts = some s) {T : TxnId}
    {t : Transaction} (ht : s.mgr.txns T = some t) :
    ∀ w ∈ t.writeSet, s.mgr.lockMgr.owner w.lockKey = T ∧
      (∀ T' t', s.mgr.txns T' = some t' → ∀ w' ∈ t'.writeSet, w'.tableId = w.tableId →
        w'.key = w.key → T' = T) ∧
      ∀ th T' w', s.calls th = some (.buffer T' w') → s.mgr.txns T' ≠ none →
        w'.tableId = w.tableId → w'.key = w.key → T' = T := by
  have hI := run_locked hC h
  intro w hw
  have howned := (hI.txns T t ht).2 w hw
  have hrow : ∀ w' : BufferedWrite, w'.tableId = w.tableId → w'.key = w.key →
      w'.lockKey = w.lockKey := by
    intro w' htable hkey
    unfold BufferedWrite.lockKey
    rw [htable, hkey]
  refine ⟨howned, fun T' t' ht' w' hw' htable hkey => ?_, fun th T' w' hc hin htable hkey => ?_⟩
  · rw [← howned, ← hrow w' htable hkey]
    exact ((hI.txns T' t' ht').2 w' hw').symm
  · rw [← howned, ← hrow w' htable hkey]
    exact (hI.call th _ hc hin).symm

/-! ### One thread -/

/-- Nobody claims the locks of the transaction on thread 0. -/
def Managed.FreeOnZero (s : Managed) (T : TxnId) : Prop := ∀ c ∈ s.calls 0, c.claims ≠ some T

/-- The action is not that of another thread than 0. -/
def ManagedAction.onZero : ManagedAction → Bool
  | .start th _ => th = 0
  | .step th _ => th = 0
  | _ => true

/-- A step of thread 0 that keeps the locks as far as thread 0 is concerned. -/
def keepsLocksOnZero (s : Managed) (a : ManagedAction) : Prop :=
  a.onZero = true ∧ keepsLocksIf Managed.FreeOnZero s a

instance (s : Managed) : DecidablePred (keepsLocksOnZero s) := by
  intro a
  unfold keepsLocksOnZero keepsLocksIf Managed.FreeOnZero
  refine @instDecidableAnd _ _ _ ?_
  split
  · infer_instance
  · split <;> infer_instance
  · infer_instance

/-- Where only thread 0 acts, nobody else claims anything. -/
theorem meets_of_onZero {acts : List ManagedAction}
    (h : managed.Meets keepsLocksOnZero managed.init acts) :
    managed.Meets keepsLocks managed.init acts := by
  refine Machine.meets_of_inv (I := fun s => ∀ th, th ≠ 0 → s.calls th = none) ?_ ?_
    (fun _ _ => rfl) h
  · rintro s a halone ⟨-, hkeeps⟩
    have hfree : ∀ T, s.FreeOnZero T → s.Unclaimed T := by
      intro T hzero th c hc
      by_cases hth : th = 0
      · exact hzero c (hth ▸ hc)
      · rw [halone th hth] at hc
        cases hc
    unfold keepsLocksIf at hkeeps
    unfold keepsLocks keepsLocksIf
    split at hkeeps
    · exact hkeeps
    · split at hkeeps
      · exact hkeeps
      · exact hfree _ hkeeps
      · exact hfree _ hkeeps
      · trivial
    · trivial
  · rintro s a s' halone ⟨hzero, -⟩ hstep th hth
    rcases Managed.step_cases hstep with ⟨th', op, rfl, -, -, rfl⟩ |
      ⟨th', timedOut, c, m, o, rfl, -, -, rfl⟩ | ⟨kept, rfl, rfl⟩ | ⟨T, rest, m, rfl, -, -, rfl⟩
    · obtain rfl : th' = 0 := of_decide_eq_true hzero
      exact (update_of_ne hth ..).trans (halone th hth)
    · obtain rfl : th' = 0 := of_decide_eq_true hzero
      exact (update_of_ne hth ..).trans (halone th hth)
    · rfl
    · exact halone th hth

/-- The steps of one call on thread 0, none of them timing out. -/
def served (op : Op) (steps : ℕ) : List ManagedAction :=
  .start 0 op :: List.replicate steps (.step 0 false)

/-- A transaction prepares a write, and the process crashes and recovers. -/
def preparedAndRecovered : List ManagedAction :=
  served (.begin 1) 3 ++ served (.write 1 7 [1] [5]) 2 ++ served (.prepare 1 2) 1 ++
    [.crash 3, .recover]

theorem prepared_own_locks_preparedAndRecovered :
    ∃ s t, managed.run preparedAndRecovered = some s ∧ s.mgr.txns 1 = some t ∧
      t.state = .prepared ∧ t.writeSet = [⟨7, [1], [5], false⟩] ∧
      s.mgr.lockMgr.owner (makeLockKey 7 [1]) = 1 := by
  obtain ⟨s, hs, t, ht, hstate, hws⟩ : ∃ s, managed.run preparedAndRecovered = some s ∧ ∃ t,
      s.mgr.txns 1 = some t ∧ t.state = .prepared ∧ t.writeSet = [⟨7, [1], [5], false⟩] := by
    decide +kernel
  have howned := (prepared_own_locks (meets_of_onZero (by decide +kernel)) hs ht
    ⟨7, [1], [5], false⟩ (by simp [hws])).1
  exact ⟨s, t, hs, ht, hstate, hws, howned⟩

/-- A follower imports a batch with one write, becomes leader, and lets another transaction
prepare a write of the same row. -/
def importThenPrepare : List ManagedAction :=
  served (.importPreparedTxn 1 2 [⟨7, [1], [5], false⟩]) 5 ++ served (.begin 3) 3 ++
    served (.write 2 7 [1] [6]) 2 ++ served (.prepare 2 4) 1

/-- A late write of a prepared transaction fails and releases its locks, and another
transaction prepares a write of its row. -/
def lateWrite : List ManagedAction :=
  served (.begin 1) 3 ++ served (.write 1 7 [1] [5]) 2 ++ served (.prepare 1 2) 1 ++
    served (.write 1 7 [2] [5]) 4 ++ served (.begin 3) 3 ++ served (.write 2 7 [1] [6]) 2 ++
    served (.prepare 2 4) 1

/-- The state of a transaction, and the rows that it writes. -/
def Managed.writer (s : Managed) (T : TxnId) : Option (TxnState × List (TableId × Bytes)) :=
  (s.mgr.txns T).map fun t => (t.state, t.writeSet.map fun w => (w.tableId, w.key))

/-- **Prepared transactions without their locks**: an import takes none, and a late write
releases them.  Both times transactions 1 and 2 are prepared with a write of one row, and
the lock belongs to 2. -/
theorem prepared_without_locks :
    (∃ s, managed.run importThenPrepare = some s ∧ s.writer 1 = some (.prepared, [(7, [1])]) ∧
      s.writer 2 = some (.prepared, [(7, [1])]) ∧ s.mgr.lockMgr.owner (makeLockKey 7 [1]) = 2) ∧
    ∃ s, managed.run lateWrite = some s ∧ s.writer 1 = some (.prepared, [(7, [1])]) ∧
      s.writer 2 = some (.prepared, [(7, [1])]) ∧ s.mgr.lockMgr.owner (makeLockKey 7 [1]) = 2 := by
  set_option synthInstance.maxSize 1000 in
  decide +kernel

end TransDb.Txn
