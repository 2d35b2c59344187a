import TransDb.Txn.LockSafety
import TransDb.Txn.Threads

/-!
# Recovery after a crash

A crash leaves some beginning of the log.  Recovery from it has to give back what was
committed and what was prepared.  It does in runs in which no write comes to its check
while its transaction is prepared and waits for its decision: such a write releases the
locks of the transaction, and another one can then prepare the same rows.

* `Threads.careful` — the condition on the steps of a run.
* `Guarded` — the invariant: who needs locks has them, the store holds the commits, and
  every beginning of the log is recoverable; `Guarded.step` keeps it.
* `recover_restores` — **recovery from every beginning of the log gives back the
  committed and the prepared work**, and from the whole log the store itself.
* `recover_lock_timeout` — a run in which recovery fails.
-/

namespace TransDb.Txn

open Option List Function Storage

/-! ## The whole log is recoverable -/

section Recoverable

variable {ι : Type*} {m : TxnManager} {calls : ι → Option Call} {phase : TxnId → Phase ι}

/-- The last record of a transaction tells how far it is. -/
theorem Sim.lastType_cases (h : Sim m calls phase)
    (himp : ∀ T i ts cts ws done, phase T ≠ .importing i ts cts ws done) (T : TxnId) :
    (lastType m.wal.records T = some .commit → ∃ t ts, phase T = .committed t ts) ∧
    (lastType m.wal.records T = some .prepare → ∃ t, (phase T).holding = some t ∧
      t.state = .prepared ∧ (phase T).content = t.records) := by
  unfold lastType
  rw [h.content T]
  -- the last of the records of a transaction that is not over
  have hlast : ∀ {t : Transaction} {type : WALRecordType},
      t.records.getLast?.map Prod.fst = some type →
        type ≠ .commit ∧ (type = .prepare → t.state = .prepared) := by
    intro t type hl
    obtain ⟨r, hr, rfl⟩ := map_eq_some_iff.mp hl
    have := Transaction.type_of_mem_records (mem_of_getLast? hr)
    exact ⟨this.1, this.2.2⟩
  cases hp : phase T with
  | unborn | drawn | logged => simp [Phase.content]
  | importing i ts' cts ws done => exact absurd hp (himp _ _ _ _ _ _)
  | live t | committing _ t =>
    refine ⟨fun hl => absurd rfl (hlast hl).1, fun hl => ?_⟩
    exact ⟨t, rfl, (hlast hl).2 rfl, rfl⟩
  | aborting _ t =>
    refine ⟨fun hl => absurd rfl (hlast hl).1, fun hl => ?_⟩
    exact ⟨t, if_pos ((hlast hl).2 rfl), (hlast hl).2 rfl, rfl⟩
  | aborted t => simp [Phase.content]
  | committed t ts => simp [Phase.content]

/-- **The log of a run is recoverable** as it stands. -/
theorem Sim.recoverable (h : Sim m calls phase) (hlock : LockInv m calls phase)
    (hstore : StoreSim m.store phase) {archive : TxnId → Option Transaction}
    (harch : ∀ T, archive T = (phase T).archived) : Recoverable m.wal.records archive := by
  have himp := hlock.not_importing
  refine ⟨?_, ?_, ?_, ?_, ?_, ?_, ?_⟩
  · intro T hT
    obtain ⟨t, hhold, hstate, hcontent⟩ := (h.lastType_cases himp T).2 hT
    refine ⟨t, ?_, hstate, (h.content T).trans hcontent⟩
    rw [harch]
    exact Phase.archived_of_holding hhold
  · intro T hT
    obtain ⟨t, ts, hp⟩ := (h.lastType_cases himp T).1 hT
    exact ⟨ts, (h.commitIn_iff himp).mpr ⟨t, hp⟩⟩
  · intro T ts hT
    obtain ⟨t, hp⟩ := (h.commitIn_iff himp).mp hT
    have hok := h.ok T
    rw [hp] at hok
    exact ⟨t, by rw [harch, hp]; rfl, hok, by rw [h.content T, hp]; rfl⟩
  · intro T t ht
    rw [harch] at ht
    exact hlock.tidy T t ht
  · rw [h.content 0, (h.unborn 0).mpr (.inl rfl)]
    rfl
  · intro T T' t t' hT hT' ht ht' w hw w' hw' hkey
    obtain ⟨t0, hhold, -, -⟩ := (h.lastType_cases himp T).2 hT
    obtain ⟨t0', hhold', -, -⟩ := (h.lastType_cases himp T').2 hT'
    rw [harch, Phase.archived_of_holding hhold] at ht
    rw [harch, Phase.archived_of_holding hhold'] at ht'
    cases ht
    cases ht'
    rw [← hlock.holds T t hhold w hw, hkey, hlock.holds T' t' hhold' w' hw']
  · intro T T' ts hT hT'
    obtain ⟨t, hp⟩ := (h.commitIn_iff himp).mp hT
    obtain ⟨t', hp'⟩ := (h.commitIn_iff himp).mp hT'
    exact hstore.distinct T T' ts _ _ (by rw [hp]; rfl) (by rw [hp']; rfl)

end Recoverable

/-! ## Careful runs -/

/-- An operation whose sizes fit into the log; a prepared transaction is not brought in
from outside. -/
def Op.plain : Op → Bool
  | .write _ _ k v => decide (k.length < 2 ^ 32) && decide (v.length < 2 ^ 32)
  | .delete _ _ k => decide (k.length < 2 ^ 32)
  | .importPreparedTxn _ _ _ => false
  | _ => true

namespace Threads

/-- No other transaction was asked to commit at the timestamp of this commit. -/
def freshCommit (s : Threads) : Op → Bool
  | .commit t ts => s.history.all fun e =>
    match e with
    | .called _ (.commit t' ts') => decide (ts' = ts → t' = t)
    | _ => true
  | _ => true

/-- The condition on the steps of a run: the operations are plain, commits have
different timestamps, and no write comes to its check while `PREPARE` is the last record
of its transaction. -/
def careful (s : Threads) : ThreadAction → Bool
  | .start _ op => op.plain && s.freshCommit op
  | .step th _ =>
    match s.pcs th with
    | some (.buffer t _) => decide (lastType s.mgr.wal.records t ≠ some .prepare)
    | _ => true

variable {s : Threads} {ts : Timestamp}

theorem asked_of_freshCommit {T T' : TxnId}
    (h : s.freshCommit (.commit T ts) = true) (h' : s.asked T' ts = true) : T' = T := by
  obtain ⟨e, he, hask⟩ := any_eq_true.mp h'
  have hall := all_eq_true.mp h e he
  cases e with
  | returned => cases hask
  | called th op =>
    cases op with
    | commit t ts' =>
      obtain ⟨rfl, rfl⟩ := of_decide_eq_true hask
      exact of_decide_eq_true hall rfl
    | _ => cases hask

theorem asked_enter {th : ThreadId} {op : Op} {T : TxnId} :
    (s.enter th op).asked T ts = true ↔ op = .commit T ts ∨ s.asked T ts = true := by
  unfold asked enter
  rw [any_cons, Bool.or_eq_true]
  refine or_congr_left ?_
  cases op with
  | commit t ts' => simp
  | _ => simp

theorem asked_after {th : ThreadId} {op : Op} {m : TxnManager} {o : Outcome} {T : TxnId}
    : (s.after th op m o).asked T ts = s.asked T ts := by
  cases o with
  | more c => rfl
  | done r =>
    unfold asked after
    rw [any_cons]
    rfl

end Threads

/-- The invariant of careful runs. -/
structure Guarded (s : Threads) (phase : TxnId → Phase ThreadId) : Prop where
  follows : Follows s phase
  lock : LockInv s.mgr s.pcs phase
  store : StoreSim s.mgr.store phase
  /-- Commits take place only where they were asked for. -/
  commits : ∀ th T ts, s.pcs th = some (.commit T ts) → s.asked T ts = true
  applied : ∀ T ts ws, (phase T).applied = some (ts, ws) → s.asked T ts = true
  unique : ∀ T T' ts, s.asked T ts = true → s.asked T' ts = true → T = T'
  /-- Every beginning of the log is recoverable. -/
  recoverable : ∀ P, P <+: s.mgr.wal.records → Recoverable P s.archive

theorem Guarded.init : Guarded Threads.init (fun _ => .unborn) := by
  have hlock : LockInv Threads.init.mgr Threads.init.pcs (fun _ => Phase.unborn) :=
    ⟨nofun, nofun, nofun, nofun⟩
  refine ⟨Follows.init, hlock, StoreSim.init, nofun, nofun, nofun, ?_⟩
  intro P hP
  obtain rfl : P = [] := prefix_nil.mp hP
  exact Follows.init.sim.recoverable hlock StoreSim.init fun _ => rfl

/-- A recoverable log stays so while its transactions go on: those that are prepared in
it do not change. -/
theorem Recoverable.mono {P : List WALRecord} {archive archive' : TxnId → Option Transaction}
    (h : Recoverable P archive)
    (hsame : ∀ T t, archive T = some t → t.state = .prepared → archive' T = some t)
    (htidy : ∀ T t, archive' T = some t → ∀ w ∈ t.writeSet, w.Tidy) : Recoverable P archive' := by
  have hprep : ∀ T, lastType P T = some .prepare →
      ∃ t, archive T = some t ∧ archive' T = some t ∧ t.state = .prepared ∧ content P T = t.records := by
    intro T hT
    obtain ⟨t, ht, hstate, hcontent⟩ := h.prepared T hT
    exact ⟨t, ht, hsame T t ht hstate, hstate, hcontent⟩
  refine ⟨?_, h.committed, ?_, htidy, h.positive, ?_, h.distinct⟩
  · intro T hT
    obtain ⟨t, -, ht', hrest⟩ := hprep T hT
    exact ⟨t, ht', hrest⟩
  · intro T ts hT
    obtain ⟨t, ht, hstate, hcontent⟩ := h.commit_last T ts hT
    exact ⟨t, hsame T t ht hstate, hstate, hcontent⟩
  · intro T T' t t' hT hT' ht ht' w hw w' hw' hkey
    obtain ⟨t0, h0, h0', -⟩ := hprep T hT
    obtain ⟨t1, h1, h1', -⟩ := hprep T' hT'
    rw [ht] at h0'
    rw [ht'] at h1'
    cases h0'
    cases h1'
    exact h.exclusive T T' t t' hT hT' h0 h1 w hw w' hw' hkey

section Runs

variable {s s' : Threads} {phase : TxnId → Phase ThreadId}

theorem Guarded.enter (h : Guarded s phase) {th : ThreadId} {op : Op} (hth : s.calls th = none)
    (hallowed : s.allowed op = true) (hplain : op.plain = true) (hfresh : s.freshCommit op = true) :
    Guarded (s.enter th op) phase := by
  refine ⟨h.follows.enter hth op, ?_, h.store, ?_, ?_, ?_, h.recoverable⟩
  · refine ⟨?_, h.lock.holds, h.lock.tidy, h.lock.not_importing⟩
    intro j c hj
    rw [Threads.pcs_enter] at hj
    rcases update_eq_cases hj with ⟨rfl, hj'⟩ | ⟨-, hj⟩
    · cases hj'
      have hknown : ∀ T, op.txnId = some T → (phase T).archived ≠ none := by
        intro T hT
        refine h.follows.begun T ?_
        unfold Threads.allowed at hallowed
        rw [hT] at hallowed
        exact hallowed
      cases op with
      | write t tb k v =>
        have hsize : k.length < 2 ^ 32 ∧ v.length < 2 ^ 32 := by simpa [Op.plain] using hplain
        exact ⟨hknown t rfl, hsize.1, hsize.2, fun hd => by cases hd⟩
      | delete t tb k =>
        have hsize : k.length < 2 ^ 32 := by simpa [Op.plain] using hplain
        exact ⟨hknown t rfl, hsize, by simp, fun _ => rfl⟩
      | importPreparedTxn => cases hplain
      | _ => trivial
    · exact h.lock.call j c hj
  · intro j T ts hj
    rw [Threads.asked_enter]
    rw [Threads.pcs_enter] at hj
    rcases update_eq_cases hj with ⟨rfl, hj'⟩ | ⟨-, hj⟩
    · left
      cases op with
      | commit t ts' => cases hj'; rfl
      | _ => cases hj'
    · exact .inr (h.commits j T ts hj)
  · intro T ts ws happ
    exact Threads.asked_enter.mpr (.inr (h.applied T ts ws happ))
  · intro T T' ts hT hT'
    rw [Threads.asked_enter] at hT hT'
    rcases hT with rfl | hT
    · rcases hT' with hop | hT'
      · cases hop
        rfl
      · exact (Threads.asked_of_freshCommit hfresh hT').symm
    · rcases hT' with rfl | hT'
      · exact Threads.asked_of_freshCommit hfresh hT
      · exact h.unique T T' ts hT hT'

/-- A call goes on to a commit only from the start. -/
theorem Call.step_ne_commit {c : Call} {m m' : TxnManager} {o : Outcome} {timedOut : Bool}
    (hs : c.step m timedOut = some (m', o)) (T : TxnId) (ts : Timestamp) :
    o.next ≠ some (.commit T ts) := by
  intro hnext
  cases Call.steps hs <;> cases hnext

theorem Guarded.step (h : Guarded s phase) {th : ThreadId} {op : Op} {c : Call} {timedOut : Bool}
    {m : TxnManager} {o : Outcome} (hc : s.calls th = some (op, c))
    (hs : c.step s.mgr timedOut = some (m, o)) (hcareful : s.careful (.step th timedOut) = true) :
    ∃ phase', Guarded (s.after th op m o) phase' := by
  have hpc := Threads.pcs_eq_some hc
  obtain ⟨T, p, hmove, hfollows⟩ := h.follows.step hc hs
  have hsim := h.follows.sim
  have hok := hsim.ok T
  have hbuffer : ∀ T' w, c = .buffer T' w → lastType s.mgr.wal.records T' ≠ some .prepare := by
    rintro T' w rfl
    simp only [Threads.careful, hpc] at hcareful
    exact of_decide_eq_true hcareful
  have hlock := h.lock.step hsim hpc hs hmove hbuffer
  have hstore : StoreSim m.store (update phase T p) := by
    refine h.store.step hmove hok ?_
    rintro ts rfl T' ws happ
    exact h.unique T' T ts (h.applied T' ts ws happ) (h.commits th T ts hpc)
  have hlock' : LockInv (s.after th op m o).mgr (s.after th op m o).pcs (update phase T p) := by
    rw [Threads.mgr_after, Threads.pcs_after]
    exact hlock
  have hstore' : StoreSim (s.after th op m o).mgr.store (update phase T p) := by
    rw [Threads.mgr_after]
    exact hstore
  refine ⟨update phase T p, hfollows, hlock', hstore', ?_, ?_, ?_, ?_⟩
  · intro j T' ts hj
    rw [Threads.asked_after]
    rw [Threads.pcs_after] at hj
    rcases update_eq_cases hj with ⟨rfl, hj'⟩ | ⟨-, hj⟩
    · exact absurd hj' (c.step_ne_commit hs T' ts)
    · exact h.commits j T' ts hj
  · intro T' ts ws happ
    rw [Threads.asked_after]
    rcases update_cases happ with ⟨rfl, hat⟩ | ⟨-, happ⟩
    · rcases hmove.applied hok with ⟨-, heq⟩ | ⟨ts', rfl, -, -, heq⟩ | ⟨ts', ws', w, -, hold, heq⟩
      · rw [heq] at hat
        exact h.applied T' ts ws hat
      · rw [heq] at hat
        cases hat
        exact h.commits th T' ts hpc
      · rw [heq] at hat
        cases hat
        exact h.applied T' ts ws' hold
    · exact h.applied T' ts ws happ
  · intro T1 T2 ts h1 h2
    rw [Threads.asked_after] at h1 h2
    exact h.unique T1 T2 ts h1 h2
  · intro P hP
    -- a beginning of the log as it was, or the log as it is now
    have hnow := hfollows.sim.recoverable hlock' hstore' hfollows.archive
    have hsplit : P <+: s.mgr.wal.records ∨ P = (s.after th op m o).mgr.wal.records := by
      rw [Threads.mgr_after] at hP ⊢
      rcases (c.step_frame hs).2 with heq | ⟨r, heq⟩
      · rw [heq] at hP
        exact .inl hP
      · rw [heq] at hP ⊢
        exact (prefix_concat_iff.mp hP).symm
    rcases hsplit with hold | rfl
    · refine (h.recoverable P hold).mono ?_ hnow.tidy
      intro T' t ht hstate
      rw [h.follows.archive T'] at ht
      rw [hfollows.archive T']
      refine update_mono (P := (Phase.archived · = some t)) (fun _ ht => ?_) ht
      exact hmove.archived_of_prepared ht hstate
    · exact hnow

/-- The invariant along careful runs. -/
theorem run_guarded {acts : List ThreadAction}
    (hC : threads.Meets (fun s a => s.careful a = true) threads.init acts)
    (h : threads.run acts = some s) : ∃ phase, Guarded s phase := by
  refine Machine.inv_run_of_meets (I := fun s => ∃ phase, Guarded s phase) ⟨_, Guarded.init⟩ ?_ hC h
  rintro s a t ⟨phase, hg⟩ hcareful hstep
  rcases Threads.step_cases hstep with
    ⟨th, op, rfl, hth, hallowed, rfl⟩ | ⟨th, timedOut, op, c, m, o, rfl, hc, hs, rfl⟩
  · obtain ⟨hplain, hfresh⟩ := Bool.and_eq_true_iff.mp hcareful
    exact ⟨phase, hg.enter hth hallowed hplain hfresh⟩
  · exact hg.step hc hs hcareful

/-- Without a commit in progress the live store is the one that the log gives. -/
theorem Guarded.store_eq (h : Guarded s phase)
    (hno : ∀ th T ts rest, s.pcs th ≠ some (.applyWrites T ts rest)) {m : TxnManager}
    (hm : Restored s.mgr.wal.records s.archive m) : m.store = s.mgr.store := by
  have hsim := h.follows.sim
  refine MVCCStore.ext_version hm.keys h.store.keys fun tb k ts => ext fun v => ?_
  rw [hm.version, h.store.version]
  refine exists_congr fun T => ?_
  constructor
  · rintro ⟨t, hcommit, ht, hw⟩
    obtain ⟨t', hp⟩ := (hsim.commitIn_iff h.lock.not_importing).mp hcommit
    rw [h.follows.archive T, hp] at ht
    cases ht
    exact ⟨t.writeSet, by rw [hp]; rfl, hw⟩
  · rintro ⟨ws, happ, hw⟩
    cases hp : phase T with
    | committed t ts' =>
      rw [hp] at happ
      cases happ
      refine ⟨t, (hsim.commitIn_iff h.lock.not_importing).mpr ⟨t, hp⟩, ?_, hw⟩
      rw [h.follows.archive T, hp]
      rfl
    | committing i t ts' rest => exact absurd (hsim.committing T i t ts' rest hp) (hno i T ts' rest)
    | _ =>
      rw [hp] at happ
      cases happ

/-- **Recovery gives back the committed and the prepared work**, in every careful run
and from every beginning of its log; from the whole log, with no commit in progress, it
gives back the store itself. -/
theorem recover_restores {acts : List ThreadAction}
    (hC : threads.Meets (fun s a => s.careful a = true) threads.init acts)
    (h : threads.run acts = some s) {P : List WALRecord} (hP : P <+: s.mgr.wal.records) :
    ∃ m, (TxnManager.reopen P).recover = .ok m ∧ Restored P s.archive m ∧
      (P = s.mgr.wal.records → (∀ th T ts rest, s.pcs th ≠ some (.applyWrites T ts rest)) →
        m.store = s.mgr.store) := by
  obtain ⟨phase, hg⟩ := run_guarded hC h
  obtain ⟨m, hm, hrestored⟩ := recover_ok (hg.recoverable P hP)
  refine ⟨m, hm, hrestored, ?_⟩
  rintro rfl hno
  exact hg.store_eq hno hrestored

end Runs

/-- The steps of one call on thread 0, none of them timing out. -/
def callOf (op : Op) (steps : ℕ) : List ThreadAction :=
  .start 0 op :: List.replicate steps (.step 0 false)

/-- One transaction commits a row, another one prepares the deletion of the same row. -/
def commitThenPrepare : List ThreadAction :=
  callOf (.begin 1) 3 ++ callOf (.write 1 7 [1] [5]) 2 ++ callOf (.prepare 1 2) 1 ++
    callOf (.commit 1 2) 5 ++ callOf (.begin 3) 3 ++ callOf (.delete 2 7 [1]) 2 ++
    callOf (.prepare 2 4) 1

theorem recover_restores_commitThenPrepare :
    ∃ s, threads.run commitThenPrepare = some s ∧ s.mgr.wal.records.length = 7 ∧
      ∃ m, (TxnManager.reopen (s.mgr.wal.records.take 6)).recover = .ok m ∧
        Restored (s.mgr.wal.records.take 6) s.archive m := by
  obtain ⟨s, hs, hlen⟩ : ∃ s, threads.run commitThenPrepare = some s ∧
      s.mgr.wal.records.length = 7 := by decide +kernel
  obtain ⟨m, hm, hr, -⟩ := recover_restores (by decide +kernel) hs <| take_prefix 6 _
  exact ⟨s, hs, hlen, m, hm, hr⟩

/-- A write on a prepared transaction fails and releases its locks; another transaction
then prepares the same row. -/
def writeAfterPrepare : List ThreadAction :=
  callOf (.begin 1) 3 ++ callOf (.write 1 7 [1] [5]) 2 ++ callOf (.prepare 1 2) 1 ++
    callOf (.write 1 7 [2] [5]) 4 ++ callOf (.begin 3) 3 ++ callOf (.write 2 7 [1] [6]) 2 ++
    callOf (.prepare 2 4) 1

/-- **Recovery can fail**: two prepared transactions need the same lock. -/
theorem recover_lock_timeout :
    ∃ s, threads.run writeAfterPrepare = some s ∧
      (TxnManager.reopen s.mgr.wal.records).recover = .error .lockTimeout := by
  have hfail : (threads.run writeAfterPrepare).map (fun s =>
      match (TxnManager.reopen s.mgr.wal.records).recover with
      | .error e => some e
      | .ok _ => none) = some (some .lockTimeout) := by
    decide +kernel
  obtain ⟨s, hs, hfail⟩ := map_eq_some_iff.mp hfail
  refine ⟨s, hs, ?_⟩
  split at hfail
  · rename_i e he
    cases hfail
    exact he
  · cases hfail

end TransDb.Txn
