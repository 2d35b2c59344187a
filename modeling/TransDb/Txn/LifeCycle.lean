import TransDb.Core.Machine
import TransDb.Txn.Manager

/-!
# The life of a transaction

What the manager, its log and the threads inside it hold of one transaction is all
determined by how far the transaction has come.  A `Phase` says how far, and a
`Move` is one step of a thread that brings a transaction further.  The threads are
named by an arbitrary type, so that whatever runs calls of the manager can use this.

* `Phase.txn`, `Phase.content`, `Phase.archived` — the entry in `txns_`, the records
  in the log and the last value of the transaction, as functions of the phase.
* `Sim` — the manager and the calls in progress agree with the phases.
* `Sim.start`, `Sim.step` — **every critical section is a move of one transaction**,
  or leaves all of them where they are.
-/

namespace TransDb.Txn

open Option Function Storage

/-! ## Phases -/

/-- How far a transaction has come; `i` is the thread that has it in hand, where
there is one. -/
inductive Phase (ι : Type*) where
  | unborn
  | drawn (i : ι)
  | logged (i : ι) (snapshotTs : Timestamp)
  | importing (i : ι) (snapshotTs commitTs : Timestamp) (writes : List BufferedWrite)
      (done : List (WALRecordType × Bytes))
  | live (t : Transaction)
  | aborting (i : ι) (t : Transaction)
  | aborted (t : Transaction)
  | committing (i : ι) (t : Transaction) (commitTs : Timestamp) (rest : List BufferedWrite)
  | committed (t : Transaction) (commitTs : Timestamp)

/-- What the log holds of a transaction that is not over. -/
def Transaction.records (t : Transaction) : List (WALRecordType × Bytes) :=
  (.begin, WAL.serializeBeginPayload t.snapshotTs) :: t.writeSet.map BufferedWrite.record ++
    if t.state = .prepared then [(.prepare, WAL.serializePreparePayload t.prepareCommitTs)] else []

/-- What a log holds of a transaction. -/
def content (records : List WALRecord) (txnId : TxnId) : List (WALRecordType × Bytes) :=
  (records.filter fun r => decide (r.txnId = txnId)).map fun r => (r.type, r.payload)

namespace Phase

variable {ι : Type*}

/-- The thread that has the transaction in hand. -/
def thread : Phase ι → Option ι
  | .drawn i => some i
  | .logged i _ => some i
  | .importing i _ _ _ _ => some i
  | .aborting i _ => some i
  | .committing i _ _ _ => some i
  | _ => none

/-- The entry in `txns_`. -/
def txn : Phase ι → Option Transaction
  | .live t => some t
  | _ => none

/-- The last value of the transaction. -/
def archived : Phase ι → Option Transaction
  | .live t => some t
  | .aborting _ t => some t
  | .aborted t => some t
  | .committing _ t _ _ => some t
  | .committed t _ => some t
  | _ => none

theorem txn_of_archived {p : Phase ι} (h : p.archived = none) : p.txn = none := by
  cases p with
  | live t => cases h
  | _ => rfl

theorem archived_of_txn {p : Phase ι} {t : Transaction} (h : p.txn = some t) :
    p.archived = some t := by
  cases p with
  | live t' => exact h
  | _ => cases h

theorem txn_or_archived (p : Phase ι) : p.txn.or p.archived = p.archived := by
  cases p <;> rfl

/-- The records in the log. -/
def content : Phase ι → List (WALRecordType × Bytes)
  | .unborn => []
  | .drawn _ => []
  | .logged _ ts => [(.begin, WAL.serializeBeginPayload ts)]
  | .importing _ _ _ _ done => done
  | .live t => t.records
  | .aborting _ t => t.records
  | .aborted t => t.records ++ [(.abort, [])]
  | .committing _ t _ _ => t.records
  | .committed t ts => t.records ++ [(.commit, WAL.serializeCommitPayload ts)]

/-- The states a transaction has in `txns_`, and when it is committed. -/
def Ok : Phase ι → Prop
  | .live t => t.state = .active ∨ t.state = .prepared
  | .aborting _ t => t.state = .active ∨ t.state = .prepared
  | .aborted t => t.state = .active ∨ t.state = .prepared
  | .committing _ t _ rest => t.state = .prepared ∧ rest <:+ t.writeSet
  | .committed t _ => t.state = .prepared
  | _ => True

end Phase

/-! ## Moves -/

/-- The call can go on without bringing a transaction further. -/
def Call.mayStay : Call → Bool
  | .begin _ => false
  | .beginLog _ _ => false
  | .beginInsert _ _ => false
  | .applyWrites _ _ _ => false
  | .abortLog _ _ => false
  | .importPreparedTxn _ _ _ => false
  | .importLog _ _ _ _ _ => false
  | _ => true

/-- One step of thread `i` that stands at `c` in its call, for transaction `T`, with the
store before and after. -/
inductive Move {ι : Type*} (i : ι) (T : TxnId) :
    Call → MVCCStore → Phase ι → MVCCStore → Phase ι → Prop where
  | stay (s p) {c : Call} (hc : c.mayStay = true) : Move i T c s p s p
  | draw (s ts) : Move i T (.begin ts) s .unborn s (.drawn i)
  | log (s ts) : Move i T (.beginLog T ts) s (.drawn i) s (.logged i ts)
  | insert (s ts) : Move i T (.beginInsert T ts) s (.logged i ts) s (.live (.fresh T ts))
  | drawImport (s ts cts ws) :
      Move i T (.importPreparedTxn ts cts ws) s .unborn s (.importing i ts cts ws [])
  | logImport (s ts cts ws done r rest) :
      Move i T (.importLog T ts cts ws (r :: rest)) s (.importing i ts cts ws done) s
        (.importing i ts cts ws (done ++ [r]))
  | insertImport (s ts cts ws) :
      Move i T (.importLog T ts cts ws []) s (.importing i ts cts ws (importRecords ts cts ws)) s
        (.live ⟨T, ts, cts, .prepared, ws, [], []⟩)
  | read (s tb k v vts) {t : Transaction} (h : t.state = .active) :
      Move i T (.readRecord T tb k v vts) s (.live t) s
        (.live { t with readSet := t.readSet ++ [⟨tb, k, vts⟩] })
  | scanRow (s tb ws row rest out) {t : Transaction} (h : t.state = .active)
      (hw : latestBuffered ws tb row.pk = none) :
      Move i T (.scanRow T tb ws (row :: rest) out) s (.live t) s
        (.live { t with readSet := t.readSet ++ [⟨tb, row.pk, row.writeTs⟩] })
  | write (s w) {t : Transaction} (h : t.state = .active) :
      Move i T (.buffer T w) s (.live t) s
        (.live { t with
          lockedKeys := t.lockedKeys ++ [(w.tableId, w.key)]
          writeSet := t.writeSet ++ [w] })
  | prepare (s ts) {t : Transaction} (h : t.state = .active)
      (hv : validateReadSet s t ts = true) :
      Move i T (.prepare T ts) s (.live t) s
        (.live { t with state := .prepared, prepareCommitTs := ts })
  | reject (s ts) {t : Transaction} (h : t.state = .active) :
      Move i T (.prepare T ts) s (.live t) s (.aborting i t)
  | abandon (s r t) : Move i T (.abort T r) s (.live t) s (.aborting i t)
  | abort (s r t) : Move i T (.abortLog T r) s (.aborting i t) s (.aborted t)
  | commit (s ts) {t : Transaction} (h : t.state = .prepared) :
      Move i T (.commit T ts) s (.live t) s (.committing i t ts t.writeSet)
  | put (s t ts w rest) :
      Move i T (.applyWrites T ts (w :: rest)) s (.committing i t ts (w :: rest))
        (w.apply s ts) (.committing i t ts rest)
  | close (s t ts) :
      Move i T (.applyWrites T ts []) s (.committing i t ts []) s (.committed t ts)

namespace Move

variable {ι : Type*} {i : ι} {T : TxnId} {c : Call} {s s' : MVCCStore} {p p' : Phase ι}

/-- The last value of a transaction is what is in `txns_`, or was last there. -/
theorem archived (h : Move i T c s p s' p') : p'.archived = p'.txn.or p.archived := by
  cases h with
  | stay => cases p <;> rfl
  | _ => rfl

theorem known (h : Move i T c s p s' p') (hp : p.archived ≠ none) : p'.archived ≠ none := by
  rw [h.archived]
  cases htxn : p'.txn with
  | none => simpa using hp
  | some t => simp

variable {t : Transaction}

/-- A transaction that is prepared does not change any more. -/
theorem archived_of_prepared (h : Move i T c s p s' p')
    (ht : p.archived = some t) (hp : t.state = .prepared) : p'.archived = some t := by
  cases h with
  | read _ _ _ _ _ ha | scanRow _ _ _ _ _ _ ha | write _ _ ha | prepare _ _ ha =>
    cases ht
    rw [ha] at hp
    cases hp
  | draw | log | insert | drawImport | logImport | insertImport => cases ht
  | _ => exact ht

/-- A prepared transaction can only be removed by `Abort` and `Commit`. -/
theorem live_of_prepared (h : Move i T c s (.live t) s' p') (ht : t.state = .prepared) :
    p' = .live t ∨ (∃ e, c = .abort T e) ∨ ∃ ts, c = .commit T ts := by
  cases h with
  | stay => exact .inl rfl
  | read _ _ _ _ _ ha | scanRow _ _ _ _ _ _ ha | write _ _ ha | prepare _ _ ha | reject _ _ ha =>
    rw [ha] at ht
    cases ht
  | abandon _ e => exact .inr (.inl ⟨e, rfl⟩)
  | commit _ ts => exact .inr (.inr ⟨ts, rfl⟩)

section

variable (h : Move i T c s p s' p')
include h

/-- Who has left `txns_` does not come back. -/
theorem txn_none (hp : p.archived ≠ none) (hnone : p.txn = none) : p'.txn = none := by
  cases h with
  | stay => exact hnone
  | insert | insertImport => exact absurd rfl hp
  | read | scanRow | write | prepare => cases hnone
  | _ => rfl

/-- A transaction is prepared by the call that asks for it. -/
theorem prepared_cases (ht : p'.archived = some t) (hp : t.state = .prepared) :
    p.archived = some t ∨ c = .prepare T t.prepareCommitTs ∨
      ∃ ts cts ws, c = .importLog T ts cts ws [] := by
  cases h with
  | draw | log | drawImport | logImport => cases ht
  | insert =>
    cases ht
    cases hp
  | insertImport _ ts cts ws => exact .inr (.inr ⟨ts, cts, ws, rfl⟩)
  | read _ _ _ _ _ ha | scanRow _ _ _ _ _ _ ha | write _ _ ha =>
    cases ht
    exact absurd (ha.symm.trans hp) (by simp)
  | prepare =>
    cases ht
    exact .inr (.inl rfl)
  | _ => exact .inl ht

/-- The writes of a transaction: those it had, one more that a `Write` or `Delete`
brings, or none at the beginning. -/
theorem writeSet_cases {t' : Transaction} (ht' : p'.archived = some t') :
    (∃ t, p.archived = some t ∧ t'.writeSet = t.writeSet) ∨
    (∃ t w, p = .live t ∧ c = .buffer T w ∧ t'.writeSet = t.writeSet ++ [w]) ∨
    (p.archived = none ∧ t'.writeSet = []) ∨ ∃ ts cts ws, c = .importLog T ts cts ws [] := by
  cases h with
  | draw | log | drawImport | logImport => cases ht'
  | insert =>
    cases ht'
    exact .inr (.inr (.inl ⟨rfl, rfl⟩))
  | insertImport _ ts cts ws => exact .inr (.inr (.inr ⟨ts, cts, ws, rfl⟩))
  | write _ w =>
    cases ht'
    exact .inr (.inl ⟨_, w, rfl, rfl, rfl⟩)
  | read | scanRow | prepare =>
    cases ht'
    exact .inl ⟨_, rfl, rfl⟩
  | _ => exact .inl ⟨t', ht', rfl⟩

/-- Only the calls of an import bring a transaction into its phase. -/
theorem not_importing (hp : ∀ j ts cts ws done, p ≠ .importing j ts cts ws done)
    (hc : ∀ ts cts ws, c ≠ .importPreparedTxn ts cts ws)
    (hc' : ∀ T' ts cts ws rest, c ≠ .importLog T' ts cts ws rest) :
    ∀ j ts cts ws done, p' ≠ .importing j ts cts ws done := by
  intro j ts cts ws done heq
  cases h with
  | stay => exact hp _ _ _ _ _ heq
  | drawImport => exact hc _ _ _ rfl
  | logImport => exact hc' _ _ _ _ _ rfl
  | _ => cases heq

end

/-- A write of a transaction was there before, or has just been buffered. -/
theorem write_cases {phase : TxnId → Phase ι} (h : Move i T c s (phase T) s' p)
    (himport : ∀ T' ts cts ws rest, c ≠ .importLog T' ts cts ws rest) {T' : TxnId}
    (ht : (update phase T p T').archived = some t) {w : BufferedWrite}
    (hw : w ∈ t.writeSet) : (∃ t0, (phase T').archived = some t0 ∧ w ∈ t0.writeSet) ∨
      (T' = T ∧ ∃ t0, phase T' = .live t0 ∧ c = .buffer T' w) := by
  rcases update_cases ht with ⟨rfl, hat⟩ | ⟨-, ht⟩
  · rcases h.writeSet_cases hat with
      ⟨t0, ht0, hws⟩ | ⟨t0, w0, hlive, rfl, hws⟩ | ⟨-, hws⟩ | ⟨ts, cts, ws, himp⟩
    · exact .inl ⟨t0, ht0, hws ▸ hw⟩
    · rw [hws] at hw
      rcases List.mem_append.mp hw with hw | hw
      · exact .inl ⟨t0, by rw [hlive]; rfl, hw⟩
      · obtain rfl := List.mem_singleton.mp hw
        exact .inr ⟨rfl, t0, hlive, rfl⟩
    · rw [hws] at hw
      cases hw
    · exact absurd himp (himport _ _ _ _ _)
  · exact .inl ⟨t, ht, hw⟩

end Move

/-! ## The manager follows the phases -/

/-- What a call in progress says about the phases. -/
def CallSim {ι : Type*} (phase : TxnId → Phase ι) (i : ι) : Call → Prop
  | .beginLog t _ => phase t = .drawn i
  | .beginInsert t ts => phase t = .logged i ts
  | .importLog t ts cts ws rest =>
    ∃ done, phase t = .importing i ts cts ws done ∧ done ++ rest = importRecords ts cts ws
  | .abortLog t _ => ∃ txn, phase t = .aborting i txn
  | .applyWrites t cts rest => ∃ txn, phase t = .committing i txn cts rest
  | _ => True

/-- The manager and the calls in progress agree with the phases. -/
structure Sim {ι : Type*} (m : TxnManager) (calls : ι → Option Call)
    (phase : TxnId → Phase ι) : Prop where
  content : ∀ T, content m.wal.records T = (phase T).content
  txns : ∀ T, m.txns T = (phase T).txn
  unborn : ∀ T, phase T = .unborn ↔ T = 0 ∨ m.nextTxnId ≤ T
  next_pos : 0 < m.nextTxnId
  ok : ∀ T, (phase T).Ok
  call : ∀ i c, calls i = some c → CallSim phase i c
  /-- A commit in progress is in some thread's hands. -/
  committing : ∀ T i t cts rest, phase T = .committing i t cts rest →
    calls i = some (.applyWrites T cts rest)

theorem CallSim.frame {ι : Type*} {phase phase' : TxnId → Phase ι} {i : ι} {c : Call}
    (h : CallSim phase i c) (hsame : ∀ T, (phase T).thread = some i → phase' T = phase T) :
    CallSim phase' i c := by
  cases c with
  | beginLog t ts | beginInsert t ts => exact (hsame t (by rw [h]; rfl)).trans h
  | importLog t ts cts ws rest =>
    obtain ⟨done, hp, hd⟩ := h
    exact ⟨done, (hsame t (by rw [hp]; rfl)).trans hp, hd⟩
  | abortLog t r | applyWrites t cts rest =>
    obtain ⟨txn, hp⟩ := h
    exact ⟨txn, (hsame t (by rw [hp]; rfl)).trans hp⟩
  | _ => trivial

theorem content_append (records : List WALRecord) (r : WALRecord) (T : TxnId) :
    content (records ++ [r]) T =
      content records T ++ if r.txnId = T then [(r.type, r.payload)] else [] := by
  unfold content
  by_cases h : r.txnId = T
  · simp [List.filter_append, h]
  · simp [List.filter_append, h]

/-- The call a thread goes on with. -/
def Outcome.next : Outcome → Option Call
  | .more c => some c
  | .done _ => none

/-- What a thread says about the phases that goes on with a call, or has returned. -/
def NextSim {ι : Type*} (phase : TxnId → Phase ι) (i : ι) : Option Call → Prop
  | none => True
  | some c => CallSim phase i c

section Step

variable {ι : Type*} {m m' : TxnManager} {calls : ι → Option Call} {phase : TxnId → Phase ι}
  {i : ι} {c : Call}

theorem Sim.init : Sim (ι := ι) .empty (fun _ => none) (fun _ => .unborn) where
  content := fun _ => rfl
  txns := fun _ => rfl
  unborn := fun T => ⟨fun _ => Nat.eq_zero_or_pos T, fun _ => rfl⟩
  next_pos := Nat.one_pos
  ok := fun _ => trivial
  call := fun _ _ h => by cases h
  committing := fun _ _ _ _ _ h => by cases h

/-- The next id to be drawn belongs to nobody yet. -/
theorem Sim.unborn_next (h : Sim m calls phase) : phase m.nextTxnId = .unborn :=
  (h.unborn _).mpr (.inr le_rfl)

variable {T : TxnId} {p : Phase ι}

theorem Sim.mem_range_next (h : Sim m calls phase) (hT : phase T ≠ .unborn) :
    T ∈ List.range m.nextTxnId := by
  rw [List.mem_range]
  by_contra hge
  exact hT ((h.unborn T).mpr (.inr (not_lt.mp hge)))

variable {t : Transaction} {r : WALRecordType × Bytes} {o : Option Call}

section

variable (h : Sim m calls phase)
include h

theorem Sim.live (ht : m.txns T = some t) : phase T = .live t := by
  rw [h.txns T] at ht
  cases hp : phase T with
  | live t' =>
    rw [hp] at ht
    cases ht
    rfl
  | _ =>
    rw [hp] at ht
    cases ht

/-- What the log holds of the transactions after a record of `T`. -/
theorem Sim.content_log (hp : p.content = (phase T).content ++ [r]) (T' : TxnId) :
    Txn.content (m.wal.append T r.1 r.2).records T' = (update phase T p T').content := by
  rw [WAL.records_append, content_append]
  by_cases hT : T' = T
  · subst hT
    simp [hp, h.content T']
  · have hT' : ¬ T = T' := fun heq => hT heq.symm
    simp [hT, hT', h.content T']

theorem Sim.content_same (hp : p.content = (phase T).content) (T' : TxnId) :
    Txn.content m.wal.records T' = (update phase T p T').content :=
  update_mono (P := fun q : Phase ι => Txn.content m.wal.records T' = q.content)
    (fun _ heq => heq.trans hp.symm) (h.content T')

theorem Sim.txns_same (hp : p.txn = (phase T).txn) (T' : TxnId) :
    m.txns T' = (update phase T p T').txn :=
  update_mono (P := fun q : Phase ι => m.txns T' = q.txn) (fun _ heq => heq.trans hp.symm) (h.txns T')

theorem Sim.txns_set (T : TxnId) (p : Phase ι) (T' : TxnId) :
    (m.setTxn T p.txn).txns T' = (update phase T p T').txn := by
  unfold TxnManager.setTxn
  by_cases hT : T' = T
  · subst hT
    simp
  · simp [hT, h.txns T']

theorem Sim.unborn_same (hT : phase T ≠ .unborn) (hp : p ≠ .unborn) (T' : TxnId) :
    update phase T p T' = .unborn ↔ T' = 0 ∨ m.nextTxnId ≤ T' := by
  by_cases hT' : T' = T
  · subst hT'
    rw [update_self, ← h.unborn T']
    exact ⟨fun h => absurd h hp, fun h => absurd h hT⟩
  · rw [update_of_ne hT']
    exact h.unborn T'

theorem Sim.unborn_draw (hp : p ≠ .unborn) (T : TxnId) :
    update phase m.nextTxnId p T = .unborn ↔ T = 0 ∨ m.nextTxnId + 1 ≤ T := by
  by_cases hT : T = m.nextTxnId
  · subst hT
    rw [update_self]
    refine ⟨fun h => absurd h hp, ?_⟩
    rintro (h0 | hlt)
    · exact absurd h0 h.next_pos.ne'
    · exact absurd hlt (Nat.not_succ_le_self _)
  · rw [update_of_ne hT, h.unborn T]
    refine or_congr_right ⟨fun hle => ?_, fun hlt => Nat.le_of_succ_le hlt⟩
    exact Nat.succ_le_of_lt (lt_of_le_of_ne hle fun heq => hT heq.symm)

end

variable [DecidableEq ι]

section

variable (h : Sim m calls phase) (hc : calls i = some c)
include h hc

/-- A thread goes on without touching a transaction. -/
theorem Sim.quiet (hne : ∀ T cts rest, c ≠ .applyWrites T cts rest) (hwal : m'.wal = m.wal)
    (htxns : m'.txns = m.txns) (hnext : m'.nextTxnId = m.nextTxnId) (ho : NextSim phase i o) :
    Sim m' (update calls i o) phase where
  content := fun T => by rw [hwal]; exact h.content T
  txns := fun T => by rw [htxns]; exact h.txns T
  unborn := fun T => by rw [hnext]; exact h.unborn T
  next_pos := by rw [hnext]; exact h.next_pos
  ok := h.ok
  call := fun j c' hj => by
    rcases update_eq_cases hj with ⟨rfl, rfl⟩ | ⟨-, hj⟩
    · exact ho
    · exact h.call j c' hj
  committing := fun T j t cts rest hp => by
    refine update_keeps (h.committing T j t cts rest hp) ?_
    rw [hc]
    exact fun heq => hne _ _ _ (some.inj heq)

/-- **A thread brings a transaction further** that no other thread has in hand, from one phase to
another, with one more record in the log or none. -/
theorem Sim.advance {q p : Phase ι} (hq : phase T = q)
    (hthread : q.thread = none ∨ q.thread = some i) (hp : p ≠ .unborn) (hok : p.Ok)
    (hwal : (m'.wal = m.wal ∧ p.content = q.content) ∨
      ∃ r, m'.wal = m.wal.append T r.1 r.2 ∧ p.content = q.content ++ [r])
    (htxns : (m'.txns = m.txns ∧ p.txn = q.txn) ∨ m'.txns = update m.txns T p.txn)
    (hnext : (m'.nextTxnId = m.nextTxnId ∧ q ≠ .unborn) ∨
      (m'.nextTxnId = m.nextTxnId + 1 ∧ T = m.nextTxnId)) (ho : NextSim (update phase T p) i o)
    (hmine : ∀ T' cts rest, c = .applyWrites T' cts rest → T' = T)
    (hcommitting : ∀ j t cts rest, p = .committing j t cts rest →
      j = i ∧ o = some (.applyWrites T cts rest)) :
    Sim m' (update calls i o) (update phase T p) := by
  subst hq
  refine ⟨?_, ?_, ?_, ?_, fun T' => update_mono (fun _ _ => hok) (h.ok T'), ?_, ?_⟩
  · rcases hwal with ⟨hwal, hcontent⟩ | ⟨r, hwal, hcontent⟩
    · rw [hwal]
      exact h.content_same hcontent
    · rw [hwal]
      exact h.content_log hcontent
  · rcases htxns with ⟨htxns, htxn⟩ | htxns
    · rw [htxns]
      exact h.txns_same htxn
    · rw [htxns]
      exact h.txns_set T p
  · rcases hnext with ⟨hnext, hborn⟩ | ⟨hnext, rfl⟩
    · rw [hnext]
      exact h.unborn_same hborn hp
    · rw [hnext]
      exact h.unborn_draw hp
  · rcases hnext with ⟨hnext, -⟩ | ⟨hnext, -⟩ <;> rw [hnext]
    · exact h.next_pos
    · exact Nat.succ_pos _
  · intro j c' hj
    rcases update_eq_cases hj with ⟨rfl, rfl⟩ | ⟨hji, hj⟩
    · exact ho
    · refine (h.call j c' hj).frame fun T' hT' => update_of_ne ?_ _ _
      rintro rfl
      rcases hthread with hnone | hi
      · cases hnone.symm.trans hT'
      · exact hji (some.inj (hT'.symm.trans hi))
  · intro T' j t cts rest hp
    rcases update_eq_cases hp with ⟨rfl, hp'⟩ | ⟨hT, hp⟩
    · obtain ⟨rfl, ho'⟩ := hcommitting j t cts rest hp'
      rw [update_self]
      exact ho'
    · refine update_keeps (h.committing T' j t cts rest hp) ?_
      rw [hc]
      exact fun heq => hT (hmine _ _ _ (some.inj heq))

end

/-- A call starts without touching a transaction. -/
theorem Sim.start (h : Sim m calls phase) (hi : calls i = none) (op : Op) :
    Sim m (update calls i (some op.entry)) phase where
  content := h.content
  txns := h.txns
  unborn := h.unborn
  next_pos := h.next_pos
  ok := h.ok
  call := fun j c hj => by
    rcases update_eq_cases hj with ⟨rfl, hj'⟩ | ⟨-, hj⟩
    · cases hj'
      cases op <;> trivial
    · exact h.call j c hj
  committing := fun T j t cts rest hp => by
    exact update_keeps (h.committing T j t cts rest hp) (by rw [hi]; nofun)

/-- **Every critical section is a move** of one transaction, or leaves all of them
where they are. -/
theorem Sim.step (h : Sim m calls phase) (hc : calls i = some c) {timedOut : Bool} {o : Outcome}
    (hs : c.step m timedOut = some (m', o)) :
    ∃ T p, Move i T c m.store (phase T) m'.store p ∧
      Sim m' (update calls i o.next) (update phase T p) := by
  have hcall := h.call i c hc
  -- a step that touches no transaction
  have stay : ∀ {m' : TxnManager} {o : Outcome}, c.mayStay = true → m'.wal = m.wal →
      m'.txns = m.txns → m'.nextTxnId = m.nextTxnId → m'.store = m.store →
      NextSim phase i o.next → ∃ T p, Move i T c m.store (phase T) m'.store p ∧
        Sim m' (update calls i o.next) (update phase T p) := by
    intro m' o hstay hwal htxns hnext hstore ho
    refine ⟨0, phase 0, by rw [hstore]; exact .stay _ _ hstay, ?_⟩
    rw [update_eq_self]
    refine h.quiet hc ?_ hwal htxns hnext ho
    rintro T cts rest rfl
    cases hstay
  cases Call.steps hs with
  | «begin» =>
    refine ⟨m.nextTxnId, .drawn i, h.unborn_next ▸ .draw .., ?_⟩
    exact h.advance hc h.unborn_next (.inl rfl) (by simp) trivial (.inl ⟨rfl, rfl⟩)
      (.inl ⟨rfl, rfl⟩) (.inr ⟨rfl, rfl⟩) (update_self ..) (by simp) (by simp)
  | @beginLog t ts =>
    refine ⟨t, .logged i ts, (show phase t = .drawn i from hcall) ▸ .log .., ?_⟩
    exact h.advance hc hcall (.inr rfl) (by simp) trivial (.inr ⟨_, rfl, rfl⟩) (.inl ⟨rfl, rfl⟩)
      (.inl ⟨rfl, by simp⟩) (update_self ..) (by simp) (by simp)
  | @beginInsert t ts =>
    refine ⟨t, .live (.fresh t ts), (show phase t = .logged i ts from hcall) ▸ .insert .., ?_⟩
    exact h.advance hc hcall (.inr rfl) (by simp) (.inl rfl) (.inl ⟨rfl, rfl⟩) (.inr rfl)
      (.inl ⟨rfl, by simp⟩) trivial (by simp) (by simp)
  | @record t tb k v vts txn ht hact =>
    refine ⟨t, _, by rw [h.live ht]; exact .read _ _ _ _ _ hact, ?_⟩
    exact h.advance hc (h.live ht) (.inl rfl) (by simp) (.inl hact) (.inl ⟨rfl, rfl⟩) (.inr rfl)
      (.inl ⟨rfl, by simp⟩) trivial (by simp) (by simp)
  | @scanRow t tb ws row rest out txn hb ht hact =>
    refine ⟨t, _, by rw [h.live ht]; exact .scanRow _ _ _ _ _ _ hact hb, ?_⟩
    exact h.advance hc (h.live ht) (.inl rfl) (by simp) (.inl hact) (.inl ⟨rfl, rfl⟩) (.inr rfl)
      (.inl ⟨rfl, by simp⟩) trivial (by simp) (by simp)
  | @buffer t w txn ht hact =>
    refine ⟨t, _, by rw [h.live ht]; exact .write m.store w hact, ?_⟩
    refine h.advance hc (h.live ht) (.inl rfl) (by simp) (.inl hact) (.inr ⟨_, rfl, ?_⟩) (.inr rfl)
      (.inl ⟨rfl, by simp⟩) trivial (by simp) (by simp)
    simp [Phase.content, Transaction.records, hact]
  | @prepare t ts txn ht hact hv =>
    refine ⟨t, _, by rw [h.live ht]; exact .prepare m.store ts hact hv, ?_⟩
    refine h.advance hc (h.live ht) (.inl rfl) (by simp) (.inr rfl) (.inr ⟨_, rfl, ?_⟩) (.inr rfl)
      (.inl ⟨rfl, by simp⟩) trivial (by simp) (by simp)
    simp [Phase.content, Transaction.records, hact]
  | @invalid t ts txn ht hact =>
    refine ⟨t, .aborting i txn, h.live ht ▸ .reject m.store ts hact, ?_⟩
    exact h.advance hc (h.live ht) (.inl rfl) (by simp) (.inl hact) (.inl ⟨rfl, rfl⟩) (.inr rfl)
      (.inl ⟨rfl, by simp⟩) ⟨txn, update_self ..⟩ (by simp) (by simp)
  | @commit t ts txn ht hprep =>
    refine ⟨t, .committing i txn ts txn.writeSet, h.live ht ▸ .commit m.store ts hprep, ?_⟩
    refine h.advance hc (h.live ht) (.inl rfl) (by simp) ⟨hprep, List.suffix_refl _⟩
      (.inl ⟨rfl, rfl⟩) (.inr rfl) (.inl ⟨rfl, by simp⟩) ⟨txn, update_self ..⟩ (by simp) ?_
    rintro j t' cts rest ⟨⟩
    exact ⟨rfl, rfl⟩
  | @commitLog t ts =>
    obtain ⟨txn, hp⟩ := hcall
    refine ⟨t, .committed txn ts, hp ▸ .close .., ?_⟩
    have hok := h.ok t
    rw [hp] at hok
    refine h.advance hc hp (.inr rfl) (by simp) hok.1 (.inr ⟨_, rfl, rfl⟩) (.inl ⟨rfl, rfl⟩)
      (.inl ⟨rfl, by simp⟩) trivial ?_ (by simp)
    rintro T' cts rest ⟨⟩
    rfl
  | @applyWrite t ts w rest =>
    obtain ⟨txn, hp⟩ := hcall
    refine ⟨t, .committing i txn ts rest, hp ▸ .put .., ?_⟩
    have hok := h.ok t
    rw [hp] at hok
    refine h.advance hc hp (.inr rfl) (by simp) ⟨hok.1, (List.suffix_cons _ _).trans hok.2⟩
      (.inl ⟨rfl, rfl⟩) (.inl ⟨rfl, rfl⟩) (.inl ⟨rfl, by simp⟩) ⟨txn, update_self ..⟩ ?_ ?_
    · rintro T' cts rest' ⟨⟩
      rfl
    · rintro j t' cts rest' ⟨⟩
      exact ⟨rfl, rfl⟩
  | @abort t r txn ht =>
    refine ⟨t, .aborting i txn, h.live ht ▸ .abandon m.store r txn, ?_⟩
    have hok := h.ok t
    rw [h.live ht] at hok
    exact h.advance hc (h.live ht) (.inl rfl) (by simp) hok (.inl ⟨rfl, rfl⟩) (.inr rfl)
      (.inl ⟨rfl, by simp⟩) ⟨txn, update_self ..⟩ (by simp) (by simp)
  | @abortLog t r =>
    obtain ⟨txn, hp⟩ := hcall
    refine ⟨t, .aborted txn, hp ▸ .abort .., ?_⟩
    have hok := h.ok t
    rw [hp] at hok
    exact h.advance hc hp (.inr rfl) (by simp) hok (.inr ⟨_, rfl, rfl⟩) (.inl ⟨rfl, rfl⟩)
      (.inl ⟨rfl, by simp⟩) trivial (by simp) (by simp)
  | @importPreparedTxn ts cts ws =>
    refine ⟨m.nextTxnId, .importing i ts cts ws [], h.unborn_next ▸ .drawImport .., ?_⟩
    exact h.advance hc h.unborn_next (.inl rfl) (by simp) trivial (.inl ⟨rfl, rfl⟩)
      (.inl ⟨rfl, rfl⟩) (.inr ⟨rfl, rfl⟩) ⟨[], update_self .., rfl⟩ (by simp) (by simp)
  | @importInsert t ts cts ws =>
    obtain ⟨done, hp, hdone⟩ := hcall
    rw [List.append_nil] at hdone
    subst hdone
    refine ⟨t, .live ⟨t, ts, cts, .prepared, ws, [], []⟩, hp ▸ .insertImport .., ?_⟩
    exact h.advance hc hp (.inr rfl) (by simp) (.inr rfl) (.inl ⟨rfl, rfl⟩) (.inr rfl)
      (.inl ⟨rfl, by simp⟩) trivial (by simp) (by simp)
  | @importLog t ts cts ws r rest =>
    obtain ⟨done, hp, hdone⟩ := hcall
    refine ⟨t, .importing i ts cts ws (done ++ [r]), hp ▸ .logImport .., ?_⟩
    refine h.advance hc hp (.inr rfl) (by simp) trivial (.inr ⟨_, rfl, rfl⟩) (.inl ⟨rfl, rfl⟩)
      (.inl ⟨rfl, by simp⟩) ⟨done ++ [r], update_self .., ?_⟩ (by simp) (by simp)
    rw [List.append_assoc]
    exact hdone
  | _ => exact stay rfl rfl rfl rfl rfl trivial

end Step

end TransDb.Txn
