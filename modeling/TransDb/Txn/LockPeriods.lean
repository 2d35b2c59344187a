import TransDb.Txn.LockSafety
import TransDb.Txn.Validation

/-!
# Lock periods

Clients that drive their transactions one call at a time, with any snapshots and with
commit timestamps from one counter.  From its first write of a row until its commit or
abort is over, a transaction has the row for itself.

* `drivers` — the machine: as `clients`, with any snapshot for `Begin`.
* `ended`, `Threads.holdsRow` — when a transaction is over, and the period in between.
* `Turn` — how calls come to their last steps; `Call.turn` says there is no other way.
* `Periods` — the invariant.
* `row_periods_disjoint` — **periods are disjoint, versions are put in the order of their
  timestamps, and no update is lost.**
-/

namespace TransDb.Txn

open Option List Function Storage

/-! ## Drivers -/

namespace Clients

/-- As a client, but a transaction can begin with any snapshot. -/
def drive (s : Clients) : ClientAction → Option Clients
  | .act (.start th (.begin ts)) =>
    (s.threads.step (.start th (.begin ts))).map fun threads => { s with threads := threads }
  | a => s.step a

end Clients

/-- The machine of the drivers. -/
def drivers : Machine Clients ClientAction := ⟨Clients.init, Clients.drive⟩

theorem Clients.drive_cases {s s' : Clients} {a : ClientAction} (h : s.drive a = some s') :
    (∃ snapshot, s.clock < s.clock + 1 ∧
      s' = { s with clock := s.clock + 1, snapshot := snapshot }) ∨
    (∃ th T, s.clock < s.clock + 1 ∧ s.threads.drives th T = true ∧
      s.threads.calls th = none ∧ s.commitTs T = none ∧
      s' = { s with
        clock := s.clock + 1
        commitTs := update s.commitTs T (some s.clock) }) ∨
    (∃ th op snapshot, s.threads.calls th = none ∧
      (∀ T, op.txnId = some T → s.threads.drives th T = true) ∧
      (∀ T w, op.asWrite = some (T, w) → s.commitTs T = none) ∧
      (∀ T ts, op = .prepare T ts ∨ op = .commit T ts → s.commitTs T = some ts) ∧
      (∀ ts cts ws, op ≠ .importPreparedTxn ts cts ws) ∧
      s' = { s with threads := s.threads.enter th op, snapshot := snapshot }) ∨
    (∃ th timedOut op c m o, s.threads.calls th = some (op, c) ∧
      c.step s.threads.mgr timedOut = some (m, o) ∧
      s' = { s with threads := s.threads.after th op m o }) := by
  by_cases hbegin : ∃ th ts, a = .act (.start th (.begin ts))
  · obtain ⟨th, ts, rfl⟩ := hbegin
    obtain ⟨threads', hstep, rfl⟩ := map_eq_some_iff.mp h
    rcases Threads.step_cases hstep with ⟨th', op, heq, hth, -, rfl⟩ | ⟨th', _, _, _, _, _, heq, -⟩
    · cases heq
      exact .inr (.inr (.inl ⟨th, .begin ts, s.snapshot, hth, nofun, nofun, by simp, by simp, rfl⟩))
    · cases heq
  · have hstep : s.step a = some s' := by
      cases a with
      | act a =>
        cases a with
        | start th op =>
          cases op with
          | «begin» ts => exact absurd ⟨th, ts, rfl⟩ hbegin
          | _ => exact h
        | step => exact h
      | _ => exact h
    rcases Clients.step_cases hstep with
      ⟨th, -, hclock, rfl⟩ | ⟨th, T, -, hdraw⟩ | ⟨th, op, -, hth, hpermits, rfl⟩ |
      ⟨th, timedOut, op, c, m, o, -, hc, hs, rfl⟩
    · exact .inl ⟨_, hclock, rfl⟩
    · exact .inr (.inl ⟨th, T, hdraw⟩)
    · obtain ⟨hdrives, hwrite, hdecide, himport⟩ := s.permits_start hpermits
      exact .inr (.inr (.inl ⟨th, op, _, hth, hdrives, hwrite, hdecide, himport, rfl⟩))
    · exact .inr (.inr (.inr ⟨th, timedOut, op, c, m, o, hc, hs, rfl⟩))

/-! ## Periods -/

/-- The operation has ended its transaction if it returns this status. -/
def Op.closes : Op → Status → Bool
  | .commit _ _, e => decide (e = .ok)
  | .abort _, e => decide (e = .ok)
  | .prepare _ _, e => decide (e = .readValidationFailed)
  | .write _ _ _ _, e => decide (e = .lockTimeout)
  | .delete _ _ _, e => decide (e = .lockTimeout)
  | _, _ => false

/-- Its commit or abort returns. -/
def Event.closes (txnId : TxnId) : Event → Bool
  | .called _ _ => false
  | .returned _ op r => decide (op.txnId = some txnId) && op.closes r.status

/-- The commit or the abort of the transaction is over. -/
def ended (txnId : TxnId) (history : List Event) : Bool := history.any (Event.closes txnId)

/-- The transaction has written the row, and is not over. -/
def Threads.holdsRow (s : Threads) (txnId : TxnId) (tableId : TableId) (key : Bytes) : Bool :=
  touches (ownWrites txnId s.history) tableId key && !ended txnId s.history

theorem ended_after {s : Threads} {th : ThreadId} {op : Op} {m : TxnManager} {o : Outcome}
    {T : TxnId} : ended T (s.after th op m o).history = true ↔ ended T s.history = true ∨
      ∃ r, o = .done r ∧ op.txnId = some T ∧ op.closes r.status = true := by
  cases o with
  | more c => simp [ended, Threads.after]
  | done r =>
    unfold ended Threads.after
    rw [any_cons, Bool.or_eq_true, or_comm]
    refine or_congr_right ?_
    simp only [Event.closes, Bool.and_eq_true, decide_eq_true_eq]
    constructor
    · exact fun h => ⟨r, rfl, h⟩
    · rintro ⟨r', heq, h⟩
      cases heq
      exact h

/-! ## The last steps of calls -/

/-- The call is about to give up the locks of its transaction, and will return this. -/
def Call.leaves : Call → Option (TxnId × Status)
  | .abortLog T e => some (T, e)
  | .applyWrites T _ _ => some (T, .ok)
  | .releaseAll T e => some (T, e)
  | .releaseKeys T _ e => some (T, e)
  | _ => none

/-- The call has its lock, or is about to take its transaction out of `txns_`. -/
def Call.isLate : Call → Bool
  | .buffer _ _ => true
  | .abort _ _ => true
  | c => c.leaves.isSome

/-- How calls come to their last steps. -/
inductive Turn (m m' : TxnManager) : Call → Call → Prop where
  | locked {T : TxnId} {w : BufferedWrite} {c : Call} (h : m'.lockMgr.owner w.lockKey = T) :
      Turn m m' c (.buffer T w)
  | timedOut {T : TxnId} {w : BufferedWrite} : Turn m m' (.wait T w) (.abort T .lockTimeout)
  | unknown {T : TxnId} {w : BufferedWrite} (h : m.txns T = none) :
      Turn m m' (.buffer T w) (.releaseAll T .unknownTxn)
  | inactive {T : TxnId} {w : BufferedWrite} {t : Transaction} (h : m.txns T = some t)
      (ht : t.state ≠ .active) : Turn m m' (.buffer T w) (.releaseAll T .txnNotActive)
  | rejected {T : TxnId} {ts : Timestamp} (h : m'.txns T = none) :
      Turn m m' (.prepare T ts) (.abortLog T .readValidationFailed)
  | abandoned {T : TxnId} {e : Status} (h : m'.txns T = none) :
      Turn m m' (.abort T e) (.abortLog T e)
  | taken {T : TxnId} {ts : Timestamp} {t : Transaction} (h : m.txns T = some t)
      (h' : m'.txns T = none) : Turn m m' (.commit T ts) (.applyWrites T ts t.writeSet)
  | put {T : TxnId} {ts : Timestamp} {w : BufferedWrite} {rest : List BufferedWrite} :
      Turn m m' (.applyWrites T ts (w :: rest)) (.applyWrites T ts rest)
  | logged {T : TxnId} {ts : Timestamp} : Turn m m' (.applyWrites T ts []) (.releaseAll T .ok)
  | abortLogged {T : TxnId} {e : Status} : Turn m m' (.abortLog T e) (.releaseAll T e)
  | release {T : TxnId} {e : Status} {keys : List Bytes} :
      Turn m m' (.releaseAll T e) (.releaseKeys T keys e)
  | early {c c' : Call} (h : c'.isLate = false) : Turn m m' c c'

section Calls

variable {m m' : TxnManager} {c c' : Call} {op : Op} {o : Outcome} {timedOut : Bool}

/-- **Calls come to their last steps in no other way.** -/
theorem Call.turn (hs : c.step m timedOut = some (m', .more c')) : Turn m m' c c' := by
  cases Call.steps hs with
  | acquired hgot => exact .locked (m.lockMgr.owner_of_acquire hgot)
  | lastLook hgot =>
    exact .locked ((m.lockMgr.owner_timeout _ _ _).trans (m.lockMgr.owner_of_timeout hgot))
  | gaveUp => exact .timedOut
  | woken hl =>
    obtain ⟨hown, hsame⟩ := m.lockMgr.owner_wake hl
    exact .locked ((hsame _).trans hown)
  | bufferUnknown ht => exact .unknown ht
  | bufferInactive ht hact => exact .inactive ht hact
  | invalid => exact .rejected (update_self ..)
  | commit ht => exact .taken ht (update_self ..)
  | abort => exact .abandoned (update_self ..)
  | commitLog => exact .logged
  | applyWrite => exact .put
  | abortLog => exact .abortLogged
  | releaseAll => exact .release
  | _ => exact .early rfl

/-- A call that gives up the locks goes on to do so, and then returns. -/
theorem Call.leaves_next {T : TxnId} {e : Status} (h : c.leaves = some (T, e))
    (hs : c.step m timedOut = some (m', o)) :
    (∃ c', o = .more c' ∧ c'.leaves = some (T, e)) ∨
      ∃ keys, c = .releaseKeys T keys e ∧ o = .done (.of e) := by
  cases c with
  | abortLog | releaseAll =>
    cases h
    cases hs
    exact .inl ⟨_, rfl, rfl⟩
  | releaseKeys T' keys e' =>
    cases h
    cases hs
    exact .inr ⟨keys, rfl, rfl⟩
  | applyWrites T' ts rest =>
    cases h
    cases rest with
    | nil | cons w rest =>
      cases hs
      exact .inl ⟨_, rfl, rfl⟩
  | _ => cases h

/-- Only a release, and an abort that finds nothing, can end a transaction. -/
theorem Call.Serves.closes_done (h : c.Serves op) {r : Reply}
    (hs : c.step m timedOut = some (m', .done r)) (hr : op.closes r.status = true) :
    (∃ T keys e, c = .releaseKeys T keys e) ∨ ∃ T e, c = .abort T e ∧ m.txns T = none := by
  cases Call.steps hs with
  | releaseKeys => exact .inl ⟨_, _, _, rfl⟩
  | abortUnknown ht => exact .inr ⟨_, _, rfl, ht⟩
  | buffer =>
    cases op with
    | write | delete => cases hr
    | _ => cases h
  | prepareRefused hk =>
    cases (show op = _ from h)
    rcases checkActive_error hk with rfl | rfl <;> cases hr
  | beginInsert =>
    obtain ⟨ts, rfl⟩ := h
    cases hr
  | scanEnd | scanLate =>
    obtain ⟨r, rfl, -⟩ := h
    cases hr
  | _ =>
    cases (show op = _ from h)
    cases hr

end Calls

/-! ## The invariant -/

/-- The version that a commit has written, or will write. -/
def WrittenAt {ι : Type*} (phase : TxnId → Phase ι) (tb : TableId) (k : Bytes) (ts : Timestamp)
    (v : Bytes) : Prop :=
  ∃ W t, (phase W).commitOf = some (t, ts) ∧
    ∃ w ∈ t.writeSet, w.tableId = tb ∧ w.key = k ∧ w.stored = v

/-- The transaction with only those reads whose rows it has also written. -/
def Transaction.updates (t : Transaction) : Transaction :=
  { t with readSet := t.readSet.filter fun r => touches t.writeSet r.tableId r.key }

/-- **The invariant** of the periods. -/
structure Periods (s : Clients) (phase : TxnId → Phase ThreadId) : Prop where
  sessions : Sessions s phase
  finding : Finding (WrittenAt phase) s phase
  aborting : ∀ th op T e, s.threads.calls th = some (op, .abort T e) → op.closes e = true
  leaving : ∀ th op c T e, s.threads.calls th = some (op, c) → c.leaves = some (T, e) →
    (phase T).txn = none ∧ (op.closes e = true ∨ ended T s.threads.history = true)
  /-- Who is not in `txns_` any more is over, or about to be. -/
  finished : ∀ T, (phase T).archived ≠ none → (phase T).txn = none →
    ended T s.threads.history = true ∨
      ∃ th op c e, s.threads.calls th = some (op, c) ∧ c.leaves = some (T, e)
  ended_out : ∀ T, ended T s.threads.history = true →
    (phase T).archived ≠ none ∧ (phase T).txn = none
  applying : ∀ th op T ts rest, s.threads.calls th = some (op, .applyWrites T ts rest) →
    ended T s.threads.history = false
  /-- Until it is over, a transaction owns the locks of its rows. -/
  locked : ∀ th op T w, s.threads.calls th = some (op, .buffer T w) →
    ended T s.threads.history = false → s.threads.mgr.lockMgr.owner w.lockKey = T
  owned : ∀ T t, (phase T).archived = some t → ended T s.threads.history = false →
    ∀ w ∈ t.writeSet, s.threads.mgr.lockMgr.owner w.lockKey = T
  /-- No version of its rows is newer than its timestamp. -/
  ordered : ∀ T t c, (phase T).archived = some t → ended T s.threads.history = false →
    s.commitTs T = some c → ∀ w ∈ t.writeSet, ∀ ts v,
      MVCCStore.version s.threads.mgr.store w.tableId w.key ts = some v → ts ≤ c
  validated : ∀ T t, (phase T).archived = some t → t.state = .prepared →
    Sealed s.commitTs phase t.updates

theorem Periods.init : Periods Clients.init (fun _ => .unborn) where
  sessions := Sessions.init
  finding := Finding.init
  aborting := fun _ _ _ _ h => by cases h
  leaving := fun _ _ _ _ _ h => by cases h
  finished := fun _ h => absurd rfl h
  ended_out := fun _ h => by cases h
  applying := fun _ _ _ _ _ h => by cases h
  locked := fun _ _ _ _ h => by cases h
  owned := fun _ _ h => by cases h
  ordered := fun _ _ _ h => by cases h
  validated := fun _ _ h => by cases h

section Moves

variable {ι : Type*} {i : ι} {T : TxnId} {c : Call} {s s' : MVCCStore} {p p' : Phase ι}

/-- A transaction that is not in `txns_` was not there before, or has just been taken out. -/
theorem Move.txn_none_cases (h : Move i T c s p s' p') (hp' : p'.archived ≠ none)
    (hnone : p'.txn = none) :
    (p.archived ≠ none ∧ p.txn = none) ∨ (∃ ts, c = .prepare T ts) ∨ (∃ e, c = .abort T e) ∨
      ∃ ts, c = .commit T ts := by
  cases h with
  | stay => exact .inl ⟨hp', hnone⟩
  | draw | log | drawImport | logImport => exact absurd rfl hp'
  | insert | insertImport | read | scanRow | write | prepare => cases hnone
  | reject _ ts => exact .inr (.inl ⟨ts, rfl⟩)
  | abandon _ e => exact .inr (.inr (.inl ⟨e, rfl⟩))
  | commit _ ts => exact .inr (.inr (.inr ⟨ts, rfl⟩))
  | abort | put | close => exact .inl ⟨by simp [Phase.archived], rfl⟩

theorem WrittenAt.update {phase : TxnId → Phase ι} (hmove : Move i T c s (phase T) s' p)
    {tb : TableId} {k : Bytes} {ts : Timestamp} {v : Bytes} (h : WrittenAt phase tb k ts v) :
    WrittenAt (update phase T p) tb k ts v := by
  obtain ⟨W, t, hcommit, hw⟩ := h
  exact ⟨W, t, commitOf_update hmove hcommit, hw⟩

end Moves

/-- Every version in the store was written by a commit. -/
theorem Sessions.writtenAt {s : Clients} {phase : TxnId → Phase ThreadId} (h : Sessions s phase)
    {tb : TableId} {k : Bytes} {ts : Timestamp} {v : Bytes}
    (hv : MVCCStore.version s.threads.mgr.store tb k ts = some v) : WrittenAt phase tb k ts v := by
  obtain ⟨W, ws, happ, hw⟩ := (h.store.version tb k ts v).mp hv
  obtain ⟨t, hcommit⟩ := Phase.commitOf_of_applied happ
  obtain ⟨t', ht', hsub⟩ := Phase.applied_subset happ
  rw [Phase.archived_of_commitOf hcommit] at ht'
  cases ht'
  obtain ⟨w, hmem, hrow⟩ := mem_of_lastWrite hw
  exact ⟨W, t, hcommit, w, hsub hmem, hrow⟩

/-! ## Steps -/

section Steps

variable {s : Clients} {phase : TxnId → Phase ThreadId} {th : ThreadId} {op : Op} {c : Call}
  {timedOut : Bool} {m : TxnManager} {o : Outcome} {T : TxnId} {p : Phase ThreadId} {R : TxnId}
  {e : Status} {t : Transaction}

/-- A transaction has one driver, who does one thing at a time. -/
theorem Sessions.one_call (h : Sessions s phase) {j j' : ThreadId} {op' op'' : Op} {c' c'' : Call}
    (hj : s.threads.calls j = some (op', c')) (hj' : s.threads.calls j' = some (op'', c''))
    (hR : op'.txnId = some R) (hR' : op''.txnId = some R) : j = j' :=
  h.driver j j' R (h.driven j op' c' R hj hR) (h.driven j' op'' c'' R hj' hR')

theorem Sessions.known_of_call (h : Sessions s phase) (hc : s.threads.calls th = some (op, c))
    (hR : op.txnId = some R) : (phase R).archived ≠ none :=
  h.follows.begun R (Threads.begun_of_drives (h.driven th op c R hc hR))

theorem Call.target_of_leaves (h : c.leaves = some (T, e)) :
    c.target = some T := by
  cases c with
  | abortLog | applyWrites | releaseAll | releaseKeys =>
    cases h
    rfl
  | _ => cases h

theorem txn_none_step (hmove : Move th T c s.threads.mgr.store (phase T) m.store p)
    (hR : (phase R).archived ≠ none) (hnone : (phase R).txn = none) :
    (update phase T p R).txn = none := by
  refine update_mono (P := fun p : Phase ThreadId => p.txn = none) (fun hT hnone => ?_) hnone
  subst hT
  exact hmove.txn_none hR hnone

/-- Others do not end a transaction that has a call in progress. -/
theorem Sessions.ended_other (h : Sessions s phase) (hc : s.threads.calls th = some (op, c))
    {j : ThreadId} {op' : Op} {c' : Call} (hj : s.threads.calls j = some (op', c')) (hne : j ≠ th)
    (hR : op'.txnId = some R) :
    ended R (s.threads.after th op m o).history = ended R s.threads.history := by
  rw [Bool.eq_iff_iff, ended_after]
  constructor
  · rintro (hold | ⟨r, -, hop, -⟩)
    · exact hold
    · exact absurd (h.one_call hj hc hR hop) hne
  · exact .inl

theorem Periods.not_ended (h : Periods s phase) (hin : (phase R).txn ≠ none) :
    ended R s.threads.history = false := by
  by_contra hnot
  exact hin (h.ended_out R (by simpa using hnot)).2

/-- Two transactions that are not over do not write the same row. -/
theorem Periods.one_writer (h : Periods s phase) {W : TxnId} {tW : Transaction}
    {w w' : BufferedWrite} (ht : (phase R).archived = some t)
    (hR : ended R s.threads.history = false) (hw : w ∈ t.writeSet)
    (htW : (phase W).archived = some tW) (hW : ended W s.threads.history = false)
    (hw' : w' ∈ tW.writeSet) (htb : w'.tableId = w.tableId) (hk : w'.key = w.key) : R = W := by
  have hown := h.owned W tW htW hW w' hw'
  rwa [BufferedWrite.lockKey, htb, hk, ← BufferedWrite.lockKey, h.owned R t ht hR w hw] at hown

/-- A release ends the transaction. -/
theorem Periods.ended_of_release (h : Periods s phase) {keys : List Bytes}
    (hc : s.threads.calls th = some (op, .releaseKeys R keys e)) :
    ended R (s.threads.after th op m (.done (.of e))).history = true := by
  refine ended_after.mpr ?_
  rcases (h.leaving th op _ R e hc rfl).2 with hcloses | hended
  · exact .inr ⟨_, rfl, (h.sessions.serves th op _ hc).1, hcloses⟩
  · exact .inl hended

/-- Until it is over, a transaction keeps the locks that it has. -/
theorem Periods.keeps (h : Periods s phase) (hc : s.threads.calls th = some (op, c))
    (hs : c.step s.threads.mgr timedOut = some (m, o)) (hR : (phase R).archived ≠ none)
    (hended : ended R (s.threads.after th op m o).history = false) {lk : Bytes}
    (hown : s.threads.mgr.lockMgr.owner lk = R) : m.lockMgr.owner lk = R := by
  have hpos : R ≠ 0 := by
    rintro rfl
    rw [(h.sessions.follows.sim.unborn 0).mpr (.inl rfl)] at hR
    exact hR rfl
  rcases c.step_owner hs lk with heq | h0 | ⟨T', keys, e, rfl, hT'⟩
  · rw [heq, hown]
  · rw [hown] at h0
    exact absurd h0 hpos
  · rw [hown] at hT'
    subst hT'
    cases hs
    rw [h.ended_of_release hc] at hended
    cases hended

theorem ended_before (hended : ended T (s.threads.after th op m o).history = false) :
    ended T s.threads.history = false := by
  by_contra hnot
  rw [ended_after.mpr (.inl (by simpa using hnot))] at hended
  cases hended

/-- How a call comes to give up its locks. -/
theorem Periods.leaving_next (h : Periods s phase) (hc : s.threads.calls th = some (op, c))
    {c' : Call} (hs : c.step s.threads.mgr timedOut = some (m, .more c'))
    (hsim : ∀ R, m.txns R = (update phase T p R).txn)
    (hmove : Move th T c s.threads.mgr.store (phase T) m.store p)
    (hleaves : c'.leaves = some (R, e)) :
    (update phase T p R).txn = none ∧
      (op.closes e = true ∨ ended R s.threads.history = true) := by
  have hserves := h.sessions.serves th op c hc
  -- a call that has come this far before
  have hold : c.leaves = some (R, e) → (update phase T p R).txn = none ∧
      (op.closes e = true ∨ ended R s.threads.history = true) := by
    intro hbefore
    obtain ⟨hnone, hcloses⟩ := h.leaving th op c R e hc hbefore
    refine ⟨txn_none_step hmove ?_ hnone, hcloses⟩
    exact h.sessions.known_of_call hc (hserves.target ▸ Call.target_of_leaves hbefore)
  cases Call.turn hs with
  | locked | timedOut => cases hleaves
  | @unknown R' w hnone =>
    cases hleaves
    have hknown := h.sessions.known_of_call hc (Op.txnId_of_asWrite hserves).1
    have hout : (phase R).txn = none := by rw [← h.sessions.follows.sim.txns R]; exact hnone
    refine ⟨txn_none_step hmove hknown hout, .inr ?_⟩
    rcases h.finished R hknown hout with hended | ⟨j, op', c', e', hj, hleaves'⟩
    · exact hended
    · -- the driver is here
      have htarget := (h.sessions.serves j op' c' hj).target
      rw [Call.target_of_leaves hleaves'] at htarget
      rw [h.sessions.one_call hj hc htarget.symm (Op.txnId_of_asWrite hserves).1, hc] at hj
      cases hj
      cases hleaves'
  | @inactive R' w t ht hact =>
    exfalso
    have hlive := h.sessions.follows.sim.live ht
    have hok := h.sessions.follows.sim.ok R'
    rw [hlive] at hok
    have hprepared := h.sessions.prepared R' t (by rw [hlive]; rfl) (hok.resolve_left hact)
    rw [h.sessions.writing th op _ R' w hc hserves] at hprepared
    cases hprepared
  | rejected hnone | taken ht hnone =>
    cases hleaves
    refine ⟨by rw [← hsim]; exact hnone, .inl ?_⟩
    rw [show op = _ from hserves]
    rfl
  | abandoned hnone =>
    cases hleaves
    exact ⟨by rw [← hsim]; exact hnone, .inl (h.aborting th op _ _ hc)⟩
  | put | logged | abortLogged | release => exact hold hleaves
  | early hlate =>
    cases c' with
    | abortLog | applyWrites | releaseAll | releaseKeys => cases hlate
    | _ => cases hleaves

/-- Who has just been taken out of `txns_` is about to give up its locks. -/
theorem Sessions.leaves_of_taken (h : Sessions s phase)
    (hs : c.step s.threads.mgr timedOut = some (m, o)) (hin : (phase R).txn ≠ none)
    (hout : m.txns R = none)
    (hcall : (∃ ts, c = .prepare R ts) ∨ (∃ e, c = .abort R e) ∨ ∃ ts, c = .commit R ts) :
    ∃ c' e, o = .more c' ∧ c'.leaves = some (R, e) := by
  rw [← h.follows.sim.txns R] at hin
  obtain ⟨t, ht⟩ := ne_none_iff_exists'.mp hin
  -- a step that leaves `txns_` alone is none of these
  have hsame : m.txns R ≠ s.threads.mgr.txns R := by
    rw [hout, ht]
    simp
  rcases hcall with ⟨ts, rfl⟩ | ⟨e, rfl⟩ | ⟨ts, rfl⟩
  · cases Call.steps hs with
    | prepareRefused => exact absurd rfl hsame
    | prepare => simp [TxnManager.log, TxnManager.setTxn] at hout
    | invalid => exact ⟨_, _, rfl, rfl⟩
  · cases Call.steps hs with
    | abortUnknown => exact absurd rfl hsame
    | abort => exact ⟨_, _, rfl, rfl⟩
  · cases Call.steps hs with
    | commitUnknown | commitUnprepared => exact absurd rfl hsame
    | commit => exact ⟨_, _, rfl, rfl⟩

section

variable (h : Periods s phase) (hc : s.threads.calls th = some (op, c))
    (hs : c.step s.threads.mgr timedOut = some (m, o))
include h hc hs

theorem Periods.over_step (hsim : ∀ R, m.txns R = (update phase T p R).txn)
    (hmove : Move th T c s.threads.mgr.store (phase T) m.store p)
    (hknown : (update phase T p R).archived ≠ none) (hout : (update phase T p R).txn = none) :
    ended R (s.threads.after th op m o).history = true ∨
      ∃ j op' c' e, (s.threads.after th op m o).calls j = some (op', c') ∧
        c'.leaves = some (R, e) := by
  -- the call that has just been stepped
  have hself : ∀ {c' e}, o = .more c' → c'.leaves = some (R, e) →
      ∃ j op' c' e, (s.threads.after th op m o).calls j = some (op', c') ∧
        c'.leaves = some (R, e) := by
    rintro c' e rfl hleaves
    exact ⟨th, op, c', e, by rw [Threads.calls_after, if_pos rfl]; rfl, hleaves⟩
  -- who was out before
  have hold : (phase R).archived ≠ none → (phase R).txn = none →
      ended R (s.threads.after th op m o).history = true ∨
        ∃ j op' c' e, (s.threads.after th op m o).calls j = some (op', c') ∧
          c'.leaves = some (R, e) := by
    intro hknown hout
    rcases h.finished R hknown hout with hended | ⟨j, op', c', e, hj, hleaves⟩
    · exact .inl (ended_after.mpr (.inl hended))
    · by_cases hjt : j = th
      · subst hjt
        rw [hc] at hj
        cases hj
        rcases Call.leaves_next hleaves hs with ⟨c'', ho, hleaves'⟩ | ⟨keys, rfl, rfl⟩
        · exact .inr (hself ho hleaves')
        · exact .inl (h.ended_of_release hc)
      · exact .inr ⟨j, op', c', e, by rw [Threads.calls_after, if_neg hjt]; exact hj, hleaves⟩
  by_cases hT : R = T
  · subst hT
    have hgone : m.txns R = none := (hsim R).trans hout
    rw [update_self] at hknown hout
    by_cases hin : (phase R).txn = none
    · rcases hmove.txn_none_cases hknown hout with ⟨hknown', hout'⟩ | hcall
      · exact hold hknown' hout'
      · refine hold ?_ hin
        rcases hcall with ⟨ts, rfl⟩ | ⟨e, rfl⟩ | ⟨ts, rfl⟩
        all_goals exact h.sessions.known_of_call hc (h.sessions.serves th op _ hc).target.symm
    · rcases hmove.txn_none_cases hknown hout with ⟨-, hout'⟩ | hcall
      · exact absurd hout' hin
      · obtain ⟨c', e, ho, hleaves⟩ := h.sessions.leaves_of_taken hs hin hgone hcall
        exact .inr (hself ho hleaves)
  · rw [update_of_ne hT] at hknown hout
    exact hold hknown hout

theorem Periods.ended_step (hmove : Move th T c s.threads.mgr.store (phase T) m.store p)
    (hended : ended R (s.threads.after th op m o).history = true) :
    (update phase T p R).archived ≠ none ∧ (update phase T p R).txn = none := by
  have hserves := h.sessions.serves th op c hc
  have hkeep : (phase R).archived ≠ none → (phase R).txn = none →
      (update phase T p R).archived ≠ none ∧ (update phase T p R).txn = none :=
    fun hknown hout => ⟨known_update hmove hknown, txn_none_step hmove hknown hout⟩
  rcases ended_after.mp hended with hold | ⟨r, rfl, hR, hcloses⟩
  · exact hkeep (h.ended_out R hold).1 (h.ended_out R hold).2
  · have hknown := h.sessions.known_of_call hc hR
    rcases hserves.closes_done hs hcloses with ⟨R', keys, e, rfl⟩ | ⟨R', e, rfl, hnone⟩
    · obtain rfl : R' = R := some.inj (hserves.1.symm.trans hR)
      exact hkeep hknown (h.leaving th op _ R' e hc rfl).1
    · obtain rfl : R' = R := some.inj (hserves.1.symm.trans hR)
      exact hkeep hknown ((h.sessions.follows.sim.txns R').symm.trans hnone)

variable (hmove : Move th T c s.threads.mgr.store (phase T) m.store p)
  (ht : (update phase T p R).archived = some t)
  (hended : ended R (s.threads.after th op m o).history = false)
include hmove ht hended

/-- Until it is over, a transaction owns the locks of its writes. -/
theorem Periods.owned_step : ∀ w ∈ t.writeSet, m.lockMgr.owner w.lockKey = R := by
  intro w hw
  have hbefore := ended_before hended
  rcases hmove.write_cases (h.sessions.not_import hc).2 ht hw with
    ⟨t0, ht0, hw⟩ | ⟨rfl, t0, hlive, rfl⟩
  · exact h.keeps hc hs (by rw [ht0]; simp) hended (h.owned R t0 ht0 hbefore w hw)
  · exact h.keeps hc hs (by rw [hlive]; simp [Phase.archived]) hended
      (h.locked th op R w hc hbefore)

/-- The locks keep others from putting a newer version of the row. -/
theorem Periods.ordered_step {cts : Timestamp} (hcts : s.commitTs R = some cts) {w : BufferedWrite}
    (hw : w ∈ t.writeSet) {ts : Timestamp} {v : Bytes}
    (hv : MVCCStore.version m.store w.tableId w.key ts = some v) : ts ≤ cts := by
  have hbefore := ended_before hended
  -- the writes were there before
  obtain ⟨t0, ht0, hw0⟩ : ∃ t0, (phase R).archived = some t0 ∧ w ∈ t0.writeSet := by
    have hnot : ∀ w', c ≠ .buffer R w' := by
      rintro w' rfl
      rw [h.sessions.writing th op _ R w' hc (h.sessions.serves th op _ hc)] at hcts
      cases hcts
    have hsame := h.sessions.writesOf_same hc hmove hnot
    rw [ht] at hsame
    cases harch : (phase R).archived with
    | none =>
      rw [harch] at hsame
      replace hsame : t.writeSet = [] := hsame
      rw [hsame] at hw
      cases hw
    | some t0 =>
      rw [harch] at hsame
      replace hsame : t.writeSet = t0.writeSet := hsame
      exact ⟨t0, rfl, hsame ▸ hw⟩
  have hold := h.ordered R t0 cts ht0 hbefore hcts w hw0 ts
  rcases Call.step_store hs with ⟨W, c', w', rest, rfl, hstore, -⟩ | ⟨hstore, -⟩
  · rw [hstore, version_apply] at hv
    split_ifs at hv with hrow
    · obtain ⟨⟨htb, hk⟩, rfl⟩ := hrow
      -- both own the lock of the row
      obtain ⟨tW, hp⟩ := h.sessions.follows.sim.call th _ (Threads.pcs_eq_some hc)
      have hok := h.sessions.follows.sim.ok W
      rw [hp] at hok
      have hw' : w' ∈ tW.writeSet := hok.2.subset mem_cons_self
      obtain rfl := h.one_writer ht0 hbefore hw0 (by rw [hp]; rfl) (h.applying th op W ts _ hc) hw'
        htb hk
      have hcommit := h.sessions.commits R tW ts (by rw [hp]; rfl)
      rw [hcts] at hcommit
      cases hcommit
      exact UInt64.le_refl _
    · exact hold v hv
  · rw [hstore] at hv
    exact hold v hv

end

/-- At `Prepare` the other writers of the own rows have put their versions. -/
theorem Periods.version_of_writer (h : Periods s phase) {W : TxnId} {tW : Transaction}
    {ts cW : Timestamp} (hlive : phase T = .live t) (hts : s.commitTs T = some ts) {tb : TableId}
    {k : Bytes} (hmine : touches t.writeSet tb k = true) (hmay : (phase W).mayCommit = some tW)
    (hcW : s.commitTs W = some cW) (hlt : cW < ts) (htouch : touches tW.writeSet tb k = true) :
    MVCCStore.version s.threads.mgr.store tb k cW ≠ none := by
  obtain ⟨w, hw, hrow⟩ := any_eq_true.mp hmine
  obtain ⟨rfl, rfl⟩ := of_decide_eq_true hrow
  -- who is not over owns the lock of the row
  have hmineEnded := h.not_ended (R := T) (by rw [hlive]; nofun)
  have hnotOwner : ended W s.threads.history = false → (phase W).archived = some tW → False := by
    intro hended harch
    obtain ⟨w', hw', hrow'⟩ := any_eq_true.mp htouch
    obtain ⟨htb, hk⟩ := of_decide_eq_true hrow'
    obtain rfl := h.one_writer (by rw [hlive]; rfl) hmineEnded hw harch hended hw' htb hk
    rw [hts] at hcW
    cases hcW
    exact UInt64.lt_irrefl _ hlt
  cases hp : phase W with
  | live t' =>
    rw [hp] at hmay
    cases hmay
    exact absurd (h.not_ended (by rw [hp]; nofun)) (hnotOwner · (by rw [hp]; rfl))
  | committing i t' ts' rest =>
    rw [hp] at hmay
    cases hmay
    obtain ⟨⟨op', c'⟩, hcall, hc'⟩ := map_eq_some_iff.mp
      (h.sessions.follows.sim.committing W i tW ts' rest hp)
    obtain rfl : c' = _ := hc'
    exact absurd (h.applying i op' W ts' rest hcall) (hnotOwner · (by rw [hp]; rfl))
  | committed t' ts' =>
    have hts' := h.sessions.commits W t' ts' (by rw [hp]; rfl)
    rw [hcW] at hts'
    cases hts'
    rw [hp] at hmay
    cases hmay
    obtain ⟨v, hv⟩ := ne_none_iff_exists'.mp (lastWrite_of_touches htouch)
    rw [(h.sessions.store.version _ _ _ v).mpr ⟨W, tW.writeSet, by rw [hp]; rfl, hv⟩]
    simp
  | _ =>
    rw [hp] at hmay
    cases hmay

theorem Periods.validated_step (h : Periods s phase) (hc : s.threads.calls th = some (op, c))
    (hmove : Move th T c s.threads.mgr.store (phase T) m.store p)
    (ht : (update phase T p R).archived = some t) (hp : t.state = .prepared) :
    Sealed s.commitTs (update phase T p) t.updates := by
  refine h.sessions.sealed_step hc hmove h.validated ?_ ht hp
  rintro R t ts rfl hlive hts hv
  refine h.sessions.seal_of_versions hlive hts hv rfl (fun r hr => (mem_filter.mp hr).1) ?_
  intro r hr W tW cW hmay hcW hlt htouch
  exact h.version_of_writer hlive hts (mem_filter.mp hr).2 hmay hcW hlt htouch

theorem Periods.step (h : Periods s phase) (hc : s.threads.calls th = some (op, c))
    (hs : c.step s.threads.mgr timedOut = some (m, o)) :
    ∃ phase', Periods { s with threads := s.threads.after th op m o } phase' := by
  obtain ⟨T, p, hmove, hsessions⟩ := h.sessions.step hc hs s.snapshot
  have hsim := hsessions.follows.sim
  simp only [Threads.mgr_after] at hsim
  have hfinding := h.finding.step h.sessions hc hs hmove hsim
    (fun tb k ts v hwritten => hwritten.update hmove)
    (fun x hx => (h.sessions.writtenAt (Call.version_of_fetches hx)).update hmove) s.snapshot
  refine ⟨update phase T p, hsessions, hfinding, ?_, ?_, ?_, ?_, ?_, ?_, ?_, ?_, ?_⟩
  · intro j op' R e hj
    rcases Threads.calls_after_cases hj with ⟨-, rfl, rfl⟩ | ⟨-, hj⟩
    · cases Call.turn hs with
      | @timedOut _ w =>
        have hw : op'.asWrite = some (R, w) := h.sessions.serves th op' _ hc
        cases op' with
        | write | delete => rfl
        | _ => cases hw
      | early hlate => cases hlate
    · exact h.aborting j op' R e hj
  · intro j op' c' R e hj hleaves
    rcases Threads.calls_after_cases hj with ⟨-, rfl, rfl⟩ | ⟨-, hj⟩
    · obtain ⟨hout, hcloses⟩ := h.leaving_next hc hs hsim.txns hmove hleaves
      exact ⟨hout, hcloses.imp_right fun hended => ended_after.mpr (.inl hended)⟩
    · obtain ⟨hout, hcloses⟩ := h.leaving j op' c' R e hj hleaves
      have htarget := (h.sessions.serves j op' c' hj).target
      rw [Call.target_of_leaves hleaves] at htarget
      exact ⟨txn_none_step hmove (h.sessions.known_of_call hj htarget.symm) hout,
        hcloses.imp_right fun hended => ended_after.mpr (.inl hended)⟩
  · intro R hknown hout
    exact h.over_step hc hs hsim.txns hmove hknown hout
  · intro R hended
    exact h.ended_step hc hs hmove hended
  · intro j op' R ts rest hj
    rcases Threads.calls_after_cases hj with ⟨-, rfl, rfl⟩ | ⟨hne, hj⟩
    · show ended R s.threads.history = false
      cases Call.turn hs with
      | taken ht => exact h.not_ended (by rw [← h.sessions.follows.sim.txns R, ht]; nofun)
      | put => exact h.applying th op' R ts _ hc
      | early hlate => cases hlate
    · have hR := (h.sessions.serves j op' _ hj).target
      rw [← h.applying j op' R ts rest hj]
      exact h.sessions.ended_other hc hj hne hR.symm
  · intro j op' R w hj hended
    show (s.threads.after th op m o).mgr.lockMgr.owner w.lockKey = R
    rw [Threads.mgr_after]
    rcases Threads.calls_after_cases hj with ⟨-, rfl, rfl⟩ | ⟨hne, hj⟩
    · cases Call.turn hs with
      | locked hown => exact hown
      | early hlate => cases hlate
    · have hR := (h.sessions.serves j op' _ hj).target
      exact h.keeps hc hs (h.sessions.known_of_call hj hR.symm) hended
        (h.locked j op' R w hj (ended_before hended))
  · intro R t ht hended w hw
    show (s.threads.after th op m o).mgr.lockMgr.owner w.lockKey = R
    rw [Threads.mgr_after]
    exact h.owned_step hc hs hmove ht hended w hw
  · intro R t cts ht hended hcts w hw ts v hv
    replace hv : MVCCStore.version (s.threads.after th op m o).mgr.store w.tableId w.key ts = some v :=
      hv
    rw [Threads.mgr_after] at hv
    exact h.ordered_step hc hs hmove ht hended hcts hw hv
  · intro R t ht hp
    exact h.validated_step hc hmove ht hp

/-! ## Runs -/

theorem Periods.enter (h : Periods s phase) {op : Op} {snapshot : ThreadId → Option Timestamp}
    (hth : s.threads.calls th = none)
    (hsessions : Sessions { s with threads := s.threads.enter th op, snapshot := snapshot } phase) :
    Periods { s with threads := s.threads.enter th op, snapshot := snapshot } phase := by
  -- a call that starts is not late, unless it is `Abort`
  have hentry : op.entry.leaves = none := by cases op <;> rfl
  refine ⟨hsessions, h.finding.enter snapshot, ?_, ?_, ?_, h.ended_out, ?_, ?_, h.owned, h.ordered,
    h.validated⟩
  · intro j op' T e hj
    rcases Threads.calls_enter_cases hj with ⟨-, rfl, hc⟩ | ⟨-, hj⟩
    · cases op' with
      | abort =>
        cases hc
        rfl
      | _ => cases hc
    · exact h.aborting j op' T e hj
  · intro j op' c' T e hj hleaves
    rcases Threads.calls_enter_cases hj with ⟨-, -, rfl⟩ | ⟨-, hj⟩
    · rw [hentry] at hleaves
      cases hleaves
    · exact h.leaving j op' c' T e hj hleaves
  · intro T hknown hout
    rcases h.finished T hknown hout with hended | ⟨j, op', c', e, hj, hleaves⟩
    · exact .inl hended
    · refine .inr ⟨j, op', c', e, ?_, hleaves⟩
      have hne : j ≠ th := by
        rintro rfl
        rw [hth] at hj
        cases hj
      show (s.threads.enter th op).calls j = some (op', c')
      rw [Threads.calls_enter, if_neg hne]
      exact hj
  · intro j op' T ts rest hj
    rcases Threads.calls_enter_cases hj with ⟨-, -, hc⟩ | ⟨-, hj⟩
    · cases op <;> cases hc
    · exact h.applying j op' T ts rest hj
  · intro j op' T w hj hended
    rcases Threads.calls_enter_cases hj with ⟨-, -, hc⟩ | ⟨-, hj⟩
    · cases op <;> cases hc
    · exact h.locked j op' T w hj hended

/-- All versions are older than the clock. -/
theorem Sessions.version_lt_clock (h : Sessions s phase) {tb : TableId} {k : Bytes}
    {ts : Timestamp} {v : Bytes}
    (hv : MVCCStore.version s.threads.mgr.store tb k ts = some v) : ts < s.clock := by
  obtain ⟨W, t, hcommit, -⟩ := h.writtenAt hv
  exact h.drawn_lt W ts (h.commits W t ts hcommit)

theorem Periods.draw (h : Periods s phase) (hclock : s.clock < s.clock + 1) {T : TxnId}
    (hdrives : s.threads.drives th T = true) (hidle : s.threads.calls th = none)
    (hnone : s.commitTs T = none) :
    Periods { s with
      clock := s.clock + 1
      commitTs := update s.commitTs T (some s.clock) } phase := by
  refine ⟨h.sessions.draw hclock hdrives hidle hnone, ⟨h.finding.reading, h.finding.found⟩,
    h.aborting, h.leaving, h.finished, h.ended_out, h.applying, h.locked, h.owned, ?_, ?_⟩
  · intro R t cts ht hended hcts w hw ts v hv
    rcases update_eq_cases hcts with ⟨-, ⟨⟩⟩ | ⟨-, hcts⟩
    · exact UInt64.le_of_lt (h.sessions.version_lt_clock hv)
    · exact h.ordered R t cts ht hended hcts w hw ts v hv
  · intro R t ht hp
    exact (h.validated R t ht hp).draw T (h.sessions.drawn_lt R _ (h.sessions.prepared R t ht hp))

theorem run_periods {acts : List ClientAction} (h : drivers.run acts = some s) :
    ∃ phase, Periods s phase := by
  refine Machine.inv_run (I := fun s => ∃ phase, Periods s phase) ⟨_, Periods.init⟩ ?_ h
  rintro s a s' ⟨phase, hper⟩ hstep
  rcases Clients.drive_cases hstep with
    ⟨snapshot, hclock, rfl⟩ | ⟨th, T, hclock, hdrives, hidle, hnone, rfl⟩ |
    ⟨th, op, snapshot, hth, hdrives, hwrite, hdecide, himport, rfl⟩ |
    ⟨th, timedOut, op, c, m, o, hc, hs, rfl⟩
  · exact ⟨phase, hper.sessions.drawSnapshot hclock snapshot,
      ⟨hper.finding.reading, hper.finding.found⟩, hper.aborting, hper.leaving, hper.finished,
      hper.ended_out, hper.applying, hper.locked, hper.owned, hper.ordered, hper.validated⟩
  · exact ⟨phase, hper.draw hclock hdrives hidle hnone⟩
  · exact ⟨phase, hper.enter hth
      (hper.sessions.enter_of_driver hth hdrives hwrite hdecide himport snapshot)⟩
  · exact hper.step hc hs

/-- Who holds a row owns its lock. -/
theorem Periods.owner_of_holdsRow (h : Periods s phase) {T : TxnId} {tb : TableId} {k : Bytes}
    (hholds : s.threads.holdsRow T tb k = true) :
    s.threads.mgr.lockMgr.owner (makeLockKey tb k) = T := by
  obtain ⟨htouch, hnot⟩ := Bool.and_eq_true_iff.mp hholds
  have hended : ended T s.threads.history = false := by simpa using hnot
  obtain ⟨w, hw, hrow⟩ := any_eq_true.mp htouch
  obtain ⟨rfl, rfl⟩ := of_decide_eq_true hrow
  rw [h.sessions.own T] at hw
  cases harch : (phase T).archived with
  | none =>
    rw [harch] at hw
    cases hw
  | some t =>
    rw [harch] at hw
    exact h.owned T t harch hended w hw

/-- **Writers of a row take turns.**  The periods in which two transactions hold a row do not
overlap; the versions of a row are put in the order of their timestamps; and if two
transactions with `c₁ < c₂` have committed writes of a row, what the second one has read of
the row was written at `c₁` or later. -/
theorem row_periods_disjoint {acts : List ClientAction} (h : drivers.run acts = some s) :
    (∀ tb k T T', s.threads.holdsRow T tb k = true → s.threads.holdsRow T' tb k = true → T = T') ∧
    (∀ j op T c w rest, s.threads.calls j = some (op, .applyWrites T c (w :: rest)) →
      ∀ ts v, MVCCStore.version s.threads.mgr.store w.tableId w.key ts = some v → ts ≤ c) ∧
    ∀ T₁ ∈ s.threads.committed, ∀ T₂ ∈ s.threads.committed, T₁.2 < T₂.2 →
      ∀ tb k, s.threads.wrote T₁.1 tb k ≠ none → s.threads.wrote T₂.1 tb k ≠ none →
        ∀ x ∈ foundReads T₂.1 s.threads.history, x.tableId = tb → x.key = k →
          latestBuffered x.own tb k = none →
            ∃ W ∈ s.threads.committed, T₁.2 ≤ W.2 ∧
              ∃ w ∈ writesOf (s.threads.archive W.1), w.tableId = tb ∧ w.key = k ∧
                w.stored = x.value := by
  obtain ⟨phase, hper⟩ := run_periods h
  have hsessions := hper.sessions
  refine ⟨?_, ?_, ?_⟩
  · intro tb k T T' hT hT'
    rw [← hper.owner_of_holdsRow hT, ← hper.owner_of_holdsRow hT']
  · intro j op T c w rest hj ts v hv
    obtain ⟨t, hp⟩ := hsessions.follows.sim.call j _ (Threads.pcs_eq_some hj)
    have hok := hsessions.follows.sim.ok T
    rw [hp] at hok
    exact hper.ordered T t c (by rw [hp]; rfl) (hper.applying j op T c _ hj)
      (hsessions.commits T t c (by rw [hp]; rfl)) w (hok.2.subset mem_cons_self) ts v hv
  · rintro ⟨T₁, c₁⟩ hT₁ ⟨T₂, c₂⟩ hT₂ hlt tb k hwrote₁ hwrote₂ x hx rfl rfl hnone
    obtain ⟨t₁, hcommit₁⟩ := hsessions.mem_committed.mp hT₁
    obtain ⟨t₂, hcommit₂⟩ := hsessions.mem_committed.mp hT₂
    rw [hsessions.wrote_of_commitOf hcommit₁] at hwrote₁
    rw [hsessions.wrote_of_commitOf hcommit₂] at hwrote₂
    have harch := Phase.archived_of_commitOf hcommit₂
    have hprepared := hsessions.follows.sim.prepared_of_commitOf hcommit₂
    have hts : t₂.prepareCommitTs = c₂ :=
      some.inj ((hsessions.prepared T₂ t₂ harch hprepared).symm.trans
        (hsessions.commits T₂ t₂ c₂ hcommit₂))
    -- the version that was read is in the read set, and was validated
    have hfrom := hper.finding.found T₂ x hx
    unfold ReadFrom at hfrom
    rw [hnone] at hfrom
    obtain ⟨ts, ⟨W, tW, hcommitW, hwritten⟩, t, ht, hr⟩ := hfrom
    obtain rfl : t₂ = t := some.inj (harch.symm.trans ht)
    have hupdate : ⟨x.tableId, x.key, ts⟩ ∈ t₂.updates.readSet :=
      mem_filter.mpr ⟨hr, touches_of_lastWrite hwrote₂⟩
    have hnewest := (hper.validated T₂ t₂ harch hprepared _ hupdate).2 T₁ t₁ c₁
      (Phase.mayCommit_of_commitOf hcommit₁) (hsessions.commits T₁ t₁ c₁ hcommit₁)
      (hts ▸ hlt) (touches_of_lastWrite hwrote₁)
    refine ⟨(W, ts), hsessions.mem_committed.mpr ⟨tW, hcommitW⟩, hnewest, ?_⟩
    rw [hsessions.follows.archive, Phase.archived_of_commitOf hcommitW]
    exact hwritten

end Steps

/-- Transaction 2 reads the row that was committed and writes it; transaction 3 waits for the
lock until 2 has committed, and is aborted; transaction 4 reads what 2 has committed, writes
it and is committing. -/
def updatesInTurn : List ClientAction :=
  commitRow ++
    clientCall 1 (.begin 3) 3 ++ clientCall 1 (.read 2 7 [1]) 3 ++
    clientCall 1 (.write 2 7 [1] [6]) 2 ++
    clientCall 2 (.begin 3) 3 ++ clientCall 2 (.write 3 7 [1] [7]) 1 ++
    [.drawCommit 1 2] ++ clientCall 1 (.prepare 2 3) 1 ++ clientCall 1 (.commit 2 3) 5 ++
    List.replicate 2 (.act (.step 2 false)) ++ clientCall 2 (.abort 3) 4 ++
    clientCall 2 (.begin 3) 3 ++ clientCall 2 (.read 4 7 [1]) 3 ++
    clientCall 2 (.write 4 7 [1] [7]) 2 ++ [.drawCommit 2 4] ++ clientCall 2 (.prepare 4 4) 1 ++
    clientCall 2 (.commit 4 4) 2

theorem row_periods_disjoint_updatesInTurn :
    ∃ s, drivers.run updatesInTurn = some s ∧ s.threads.holdsRow 4 7 [1] = true ∧
      (∀ T, s.threads.holdsRow T 7 [1] = true → T = 4) ∧
      (2, 3) ∈ s.threads.committed ∧ (4, 4) ∈ s.threads.committed ∧
      ⟨[], 7, [1], [6]⟩ ∈ foundReads 4 s.threads.history ∧
      ∃ W ∈ s.threads.committed, 3 ≤ W.2 ∧ ∃ w ∈ writesOf (s.threads.archive W.1),
        w.tableId = 7 ∧ w.key = [1] ∧ w.stored = [6] := by
  obtain ⟨s, hs, hholds, h2, h4, hwrote2, hwrote4, hfound⟩ : ∃ s,
      drivers.run updatesInTurn = some s ∧ s.threads.holdsRow 4 7 [1] = true ∧
      (2, 3) ∈ s.threads.committed ∧ (4, 4) ∈ s.threads.committed ∧
      s.threads.wrote 2 7 [1] ≠ none ∧ s.threads.wrote 4 7 [1] ≠ none ∧
      ⟨[], 7, [1], [6]⟩ ∈ foundReads 4 s.threads.history := by
    decide +kernel
  obtain ⟨hdisjoint, -, hread⟩ := row_periods_disjoint hs
  exact ⟨s, hs, hholds, fun T hT => hdisjoint 7 [1] T 4 hT hholds, h2, h4, hfound,
    hread _ h2 _ h4 (by decide) 7 [1] hwrote2 hwrote4 _ hfound rfl rfl rfl⟩

end TransDb.Txn
