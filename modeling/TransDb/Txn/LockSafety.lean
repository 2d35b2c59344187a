import TransDb.Txn.Recover

/-!
# Who holds the locks

A transaction needs the locks of its rows while it is in `txns_`, and after that until
its decision is in the log if it was prepared.  It keeps them that long, unless a write
comes to its check while `PREPARE` is the last record of its transaction: such a write
fails and then releases all locks of the transaction.

* `Call.step_frame`, `Call.step_owner` — what a step does to the log and the owners.
* `LockInv` — who needs its locks has them; `LockInv.step` keeps it, for steps that are
  not such a write.
-/

namespace TransDb.Txn

open Function Storage

/-! ## What a step does to the locks and the log -/

section Step

variable {m m' : TxnManager} {c : Call} {o : Outcome} {timedOut : Bool}

/-- The calls that go to the lock manager. -/
def Call.locks : Call → Bool
  | .acquire _ _ => true
  | .wait _ _ => true
  | .releaseAll _ _ => true
  | .releaseKeys _ _ _ => true
  | _ => false

/-- A step writes at most one record, and only some calls touch the locks. -/
theorem Call.step_frame (hs : c.step m timedOut = some (m', o)) :
    (c.locks = false → m'.lockMgr = m.lockMgr) ∧
      (m'.wal.records = m.wal.records ∨ ∃ r, m'.wal.records = m.wal.records ++ [r]) := by
  cases Call.steps hs with
  | acquired | queued | lastLook | gaveUp | woken | releaseAll | releaseKeys =>
    exact ⟨fun hc => (by cases hc), .inl rfl⟩
  | beginLog | importLog | buffer | prepare | commitLog | abortLog =>
    exact ⟨fun _ => rfl, .inr ⟨_, rfl⟩⟩
  | _ => exact ⟨fun _ => rfl, .inl rfl⟩

/-- A lock changes its owner only when it is free or when its owner releases it. -/
theorem Call.step_owner (hs : c.step m timedOut = some (m', o)) (lk : Bytes) :
    m'.lockMgr.owner lk = m.lockMgr.owner lk ∨ m.lockMgr.owner lk = 0 ∨
      ∃ T keys r, c = .releaseKeys T keys r ∧ m.lockMgr.owner lk = T := by
  cases Call.steps hs with
  | @acquired t w | @queued t w =>
    show (m.lockMgr.acquire w.lockKey t).1.owner lk = _ ∨ _
    rw [LockManager.owner_acquire]
    by_cases hfree : lk = w.lockKey ∧ m.lockMgr.owner w.lockKey = 0
    · exact .inr (.inl (by rw [hfree.1]; exact hfree.2))
    · exact .inl (if_neg hfree)
  | lastLook | gaveUp => exact .inl (m.lockMgr.owner_timeout _ _ _)
  | woken hl => exact .inl ((m.lockMgr.owner_wake hl).2 lk)
  | @releaseKeys t keys r =>
    by_cases hown : m.lockMgr.owner lk = t
    · exact .inr (.inr ⟨t, keys, r, rfl, hown⟩)
    · exact .inl (m.lockMgr.owner_releaseKeys keys hown)
  | _ => exact .inl rfl

end Step

/-! ## Who needs its locks -/

namespace Phase

variable {ι : Type*}

/-- The transaction, as long as it needs the locks of its rows: while it is in `txns_`,
and afterwards until its decision is in the log if it was prepared. -/
def holding : Phase ι → Option Transaction
  | .live t => some t
  | .aborting _ t => if t.state = .prepared then some t else none
  | .committing _ t _ _ => some t
  | _ => none

/-- The transaction is over, at least as far as its locks are concerned. -/
def Released (p : Phase ι) : Prop := p.archived ≠ none ∧ p.holding = none

theorem archived_of_holding {p : Phase ι} {t : Transaction} (h : p.holding = some t) :
    p.archived = some t := by
  cases p with
  | live | committing => exact h
  | aborting i t' =>
    simp only [holding] at h
    split_ifs at h
    exact h
  | _ => cases h

end Phase

/-- What a call in progress needs to be true of the locks and the transactions. -/
def CallGuard {ι : Type*} (phase : TxnId → Phase ι) (l : LockManager) : Call → Prop
  | .acquire T w => (phase T).archived ≠ none ∧ w.Tidy
  | .wait T w => (phase T).archived ≠ none ∧ w.Tidy
  | .buffer T w => (phase T).archived ≠ none ∧ w.Tidy ∧
      ((phase T).holding ≠ none → l.owner w.lockKey = T)
  | .releaseAll T _ => (phase T).Released
  | .releaseKeys T _ _ => (phase T).Released
  | .importPreparedTxn _ _ _ => False
  | .importLog _ _ _ _ _ => False
  | _ => True

namespace Move

variable {ι : Type*} {i : ι} {T : TxnId} {c : Call} {s s' : MVCCStore} {p p' : Phase ι}

theorem closes {T' : TxnId} {ts : Timestamp} (h : Move i T (.applyWrites T' ts []) s p s' p') :
    T' = T ∧ ∃ t, p' = .committed t ts := by
  cases h with
  | stay _ _ hstay => cases hstay
  | close _ t => exact ⟨rfl, t, rfl⟩

theorem aborts {T' : TxnId} {r : Status} (h : Move i T (.abortLog T' r) s p s' p') :
    T' = T ∧ ∃ t, p' = .aborted t := by
  cases h with
  | stay _ _ hstay => cases hstay
  | abort _ _ t => exact ⟨rfl, t, rfl⟩

/-- A transaction that is over stays so. -/
theorem released (h : Move i T c s p s' p') (hp : p.Released) : p'.Released := by
  refine ⟨h.known hp.1, ?_⟩
  have hhold := hp.2
  cases h with
  | stay => exact hhold
  | draw | log | insert | drawImport | logImport | insertImport => exact absurd rfl hp.1
  | read | scanRow | write | prepare | reject | abandon | commit | put => cases hhold
  | abort | close => rfl

end Move

/-- Who needs its locks has them, and the writes fit into the log. -/
structure LockInv {ι : Type*} (m : TxnManager) (calls : ι → Option Call)
    (phase : TxnId → Phase ι) : Prop where
  call : ∀ i c, calls i = some c → CallGuard phase m.lockMgr c
  holds : ∀ T t, (phase T).holding = some t → ∀ w ∈ t.writeSet, m.lockMgr.owner w.lockKey = T
  tidy : ∀ T t, (phase T).archived = some t → ∀ w ∈ t.writeSet, w.Tidy
  not_importing : ∀ T i ts cts ws done, phase T ≠ .importing i ts cts ws done

section Locks

variable {ι : Type*} {m m' : TxnManager} {calls : ι → Option Call} {phase : TxnId → Phase ι} {i : ι}
  {c : Call} {o : Outcome} {timedOut : Bool} {T : TxnId} {p : Phase ι} {st st' : MVCCStore}

/-- A transaction that needs its locks keeps those it has. -/
theorem LockInv.keeps (h : LockInv m calls phase) (hsim : Sim m calls phase) (hc : calls i = some c)
    (hs : c.step m timedOut = some (m', o)) (hT : (phase T).holding ≠ none) {lk : Bytes}
    (hown : m.lockMgr.owner lk = T) : m'.lockMgr.owner lk = T := by
  have hpos : T ≠ 0 := by
    rintro rfl
    rw [(hsim.unborn 0).mpr (.inl rfl)] at hT
    exact hT rfl
  rcases c.step_owner hs lk with heq | h0 | ⟨T', keys, r, rfl, hT'⟩
  · rw [heq, hown]
  · rw [hown] at h0
    exact absurd h0 hpos
  · have hrel := h.call i _ hc
    rw [hown] at hT'
    subst hT'
    exact absurd hrel.2 hT

variable {T' : TxnId}

section

variable (hmove : Move i T c st (phase T) st' p)
include hmove

theorem known_update (h : (phase T').archived ≠ none) : (update phase T p T').archived ≠ none :=
  update_mono (P := fun p : Phase ι => p.archived ≠ none) (fun _ => hmove.known) h

theorem released_update (h : (phase T').Released) : (update phase T p T').Released :=
  update_mono (fun _ => hmove.released) h

/-- A known transaction that needs its locks after a step needed them before. -/
theorem holding_of_update
    (hknown : (phase T').archived ≠ none)
    (h : (update phase T p T').holding ≠ none) : (phase T').holding ≠ none := by
  intro hnone
  exact h (released_update hmove ⟨hknown, hnone⟩).2

end

/-- The steps of the other threads keep what a call needs. -/
theorem LockInv.guard_other (h : LockInv m calls phase) (hsim : Sim m calls phase)
    (hc : calls i = some c) (hs : c.step m timedOut = some (m', o))
    (hmove : Move i T c m.store (phase T) m'.store p) {c' : Call}
    (hg : CallGuard phase m.lockMgr c') :
    CallGuard (update phase T p) m'.lockMgr c' := by
  cases c' with
  | acquire | wait => exact ⟨known_update hmove hg.1, hg.2⟩
  | buffer T' w =>
    refine ⟨known_update hmove hg.1, hg.2.1, fun hhold => ?_⟩
    have hbefore := holding_of_update hmove hg.1 hhold
    exact h.keeps hsim hc hs hbefore (hg.2.2 hbefore)
  | releaseAll | releaseKeys => exact released_update hmove hg
  | importPreparedTxn | importLog => exact hg
  | _ => trivial

/-- A `Write` or `Delete` that fails its check does so for a transaction that is over,
unless the transaction is prepared. -/
theorem Sim.released_of_failed (h : Sim m calls phase)
    (hknown : (phase T).archived ≠ none) (hlast : lastType m.wal.records T ≠ some .prepare)
    (hfail : ∀ t, m.txns T = some t → t.state ≠ .active) : (phase T).Released := by
  refine ⟨hknown, ?_⟩
  -- a prepared transaction that is not over has `PREPARE` as its last record
  have hprep : ∀ {t : Transaction}, (phase T).content = t.records → t.state ≠ .prepared := by
    intro t hcontent hstate
    refine hlast ?_
    unfold lastType
    rw [h.content T, hcontent, Transaction.records, if_pos hstate, List.getLast?_concat]
    rfl
  have hok := h.ok T
  cases hp : phase T with
  | live t =>
    rw [hp] at hok
    have htxn : m.txns T = some t := by rw [h.txns T, hp]; rfl
    rcases hok with hact | hpr
    · exact absurd hact (hfail t htxn)
    · exact absurd hpr (hprep (by rw [hp]; rfl))
  | aborting i t => exact if_neg (hprep (by rw [hp]; rfl))
  | committing i t ts rest =>
    rw [hp] at hok
    exact absurd hok.1 (hprep (by rw [hp]; rfl))
  | _ => rfl

/-- What the next step of a call needs is there after the step before it. -/
theorem LockInv.guard_next (h : LockInv m calls phase) (hsim : Sim m calls phase)
    (hc : calls i = some c) (hs : c.step m timedOut = some (m', o))
    (hmove : Move i T c m.store (phase T) m'.store p)
    (hcareful : ∀ T' w, c = .buffer T' w → lastType m.wal.records T' ≠ some .prepare) {c' : Call}
    (hnext : o.next = some c') : CallGuard (update phase T p) m'.lockMgr c' := by
  have hg := h.call i c hc
  cases Call.steps hs with
  | acquired hgot =>
    cases hnext
    exact ⟨known_update hmove hg.1, hg.2, fun _ => m.lockMgr.owner_of_acquire hgot⟩
  | queued =>
    cases hnext
    exact ⟨known_update hmove hg.1, hg.2⟩
  | lastLook hgot =>
    cases hnext
    refine ⟨known_update hmove hg.1, hg.2, fun _ => ?_⟩
    exact (m.lockMgr.owner_timeout _ _ _).trans (m.lockMgr.owner_of_timeout hgot)
  | woken hl =>
    cases hnext
    obtain ⟨hown, hsame⟩ := m.lockMgr.owner_wake hl
    exact ⟨known_update hmove hg.1, hg.2, fun _ => (hsame _).trans hown⟩
  | bufferUnknown ht =>
    cases hnext
    refine released_update hmove (hsim.released_of_failed hg.1 (hcareful _ _ rfl) ?_)
    simp [ht]
  | bufferInactive ht hact =>
    cases hnext
    refine released_update hmove (hsim.released_of_failed hg.1 (hcareful _ _ rfl) ?_)
    intro t' ht'
    rw [ht] at ht'
    cases ht'
    exact hact
  | commitLog =>
    obtain ⟨rfl, t, rfl⟩ := hmove.closes
    cases hnext
    show (update phase _ _ _).Released
    rw [update_self]
    exact ⟨by simp [Phase.archived], rfl⟩
  | abortLog =>
    obtain ⟨rfl, t, rfl⟩ := hmove.aborts
    cases hnext
    show (update phase _ _ _).Released
    rw [update_self]
    exact ⟨by simp [Phase.archived], rfl⟩
  | releaseAll =>
    cases hnext
    exact released_update hmove hg
  | importPreparedTxn | importLog => exact absurd hg id
  | _ => cases hnext <;> trivial

variable [DecidableEq ι]

/-- **A careful step keeps the locks with those who need them.** -/
theorem LockInv.step (h : LockInv m calls phase) (hsim : Sim m calls phase) (hc : calls i = some c)
    (hs : c.step m timedOut = some (m', o)) (hmove : Move i T c m.store (phase T) m'.store p)
    (hcareful : ∀ T' w, c = .buffer T' w → lastType m.wal.records T' ≠ some .prepare) :
    LockInv m' (update calls i o.next) (update phase T p) := by
  have hg := h.call i c hc
  have himport : ∀ T' ts cts ws rest, c ≠ .importLog T' ts cts ws rest := by
    rintro _ _ _ _ _ rfl
    exact hg
  refine ⟨?_, ?_, ?_, ?_⟩
  · intro j c' hj
    rcases update_eq_cases hj with ⟨rfl, hj'⟩ | ⟨-, hj⟩
    · exact h.guard_next hsim hc hs hmove hcareful hj'
    · exact h.guard_other hsim hc hs hmove (h.call j c' hj)
  · intro T' t' hhold w hw
    rcases hmove.write_cases himport (Phase.archived_of_holding hhold) hw with
      ⟨t, ht, hw⟩ | ⟨rfl, t, hlive, rfl⟩
    · -- it needed its locks before, with the same writes
      have hbefore := holding_of_update hmove (by rw [ht]; simp) (by rw [hhold]; simp)
      obtain ⟨t0, ht0⟩ := Option.ne_none_iff_exists'.mp hbefore
      have : t0 = t := Option.some.inj ((Phase.archived_of_holding ht0).symm.trans ht)
      subst this
      exact h.keeps hsim hc hs hbefore (h.holds T' t0 ht0 w hw)
    · have hbefore : (phase T').holding ≠ none := by
        rw [hlive]
        nofun
      exact h.keeps hsim hc hs hbefore (hg.2.2 hbefore)
  · intro T' t' harch w hw
    rcases hmove.write_cases himport harch hw with ⟨t, ht, hw⟩ | ⟨rfl, t, -, rfl⟩
    · exact h.tidy T' t ht w hw
    · exact hg.2.1
  · intro T'
    refine update_mono (P := fun p : Phase ι => ∀ i ts cts ws done, p ≠ .importing i ts cts ws done)
      (fun _ hnot => ?_) (h.not_importing T')
    exact hmove.not_importing hnot (by rintro _ _ _ rfl; exact hg) himport

end Locks

end TransDb.Txn
