import TransDb.Txn.Reads
import TransDb.Txn.Validation

/-!
# Snapshots are stable

A transaction reads at its snapshot.  What it finds there does not change, and shows every
other transaction as a whole, if two things are so: when the snapshot was drawn, nobody
with an older commit timestamp had writes left to put, and the primary keys of a table are
not prefixes of one another.

* `Threads.SnapshotRow` — the value of a row in the state that the committed transactions
  up to a timestamp have made.
* `Clients.steady` — the condition.
* `Steady` — the invariant: every answer so far is the one that the store would give now.
* `snapshots_stable` — **reads repeat, and show other transactions as a whole.**
* `snapshot_changes` — two runs in which a read does not repeat.
-/

namespace TransDb.Txn

open Option List Function Storage

/-! ## The state at a timestamp -/

namespace Threads

/-- The last of the committed writers of a row up to a timestamp. -/
def LastWriter (s : Threads) (snap : Timestamp) (tableId : TableId) (key : Bytes)
    (W : TxnId × Timestamp) : Prop :=
  W ∈ s.committed ∧ W.2 ≤ snap ∧ s.wrote W.1 tableId key ≠ none ∧
    ∀ W' ∈ s.committed, W'.2 ≤ snap → s.wrote W'.1 tableId key ≠ none → W'.2 ≤ W.2

/-- The value of a row in the state that the committed transactions up to a timestamp have
made; `none` where there is no row. -/
def SnapshotRow (s : Threads) (snap : Timestamp) (tableId : TableId) (key : Bytes) :
    Option Bytes → Prop
  | some v => isTombstone v = false ∧
      ∃ W, s.LastWriter snap tableId key W ∧ s.wrote W.1 tableId key = some v
  | none => ∀ W, s.LastWriter snap tableId key W → s.wrote W.1 tableId key = some tombstone

end Threads

/-! ## The condition -/

namespace Clients

/-- Nobody who has drawn a commit timestamp has writes left to put. -/
def nothingPending (s : Clients) : Bool :=
  ((List.range s.threads.mgr.nextTxnId).all fun T =>
    match s.threads.mgr.txns T, s.commitTs T with
    | some t, some _ => t.writeSet.isEmpty
    | _, _ => true) &&
  s.threads.inProgress.all fun e => e.2.2.isEmpty

/-- Snapshots are drawn when nothing is pending, and only these keys are written. -/
def steady (keys : TableId → Bytes → Bool) (s : Clients) : ClientAction → Bool
  | .drawSnapshot _ => s.nothingPending
  | .act (.start _ op) =>
    match op.asWrite with
    | some (_, w) => keys w.tableId w.key
    | none => true
  | _ => true

end Clients

/-! ## Writes that are still to be put -/

/-- The writes of a transaction that are not in the store yet. -/
def Phase.pending {ι : Type*} : Phase ι → List BufferedWrite
  | .live t => t.writeSet
  | .committing _ _ _ rest => rest
  | _ => []

section Pending

variable {s s' : MVCCStore} {T : TxnId} {ι : Type*} {p p' : Phase ι} {c : Call} {i : ι}

theorem Move.pending_nil (h : Move i T c s p s' p') (hbuffer : ∀ w, c ≠ .buffer T w)
    (himport : ∀ T' ts cts ws rest, c ≠ .importLog T' ts cts ws rest) (hp : p.pending = []) :
    p'.pending = [] := by
  cases h with
  | stay => exact hp
  | write _ w => exact absurd rfl (hbuffer w)
  | insertImport => exact absurd rfl (himport _ _ _ _ _)
  | put => cases hp
  | read | scanRow | prepare | commit => exact hp
  | _ => rfl

/-- A transaction keeps its snapshot. -/
theorem Move.snapshotTs (h : Move i T c s p s' p') {t : Transaction} (ht : p.archived = some t) :
    ∃ t', p'.archived = some t' ∧ t'.snapshotTs = t.snapshotTs := by
  cases h with
  | draw | log | insert | drawImport | logImport | insertImport => cases ht
  | read | scanRow | write | prepare =>
    cases ht
    exact ⟨_, rfl, rfl⟩
  | _ => exact ⟨t, ht, rfl⟩

/-- A snapshot comes with `Begin`. -/
theorem Move.snapshotTs_cases
    (h : Move i T c s p s' p') {t' : Transaction} (ht' : p'.archived = some t')
    (himport : ∀ T' ts cts ws rest, c ≠ .importLog T' ts cts ws rest) :
    (∃ t, p.archived = some t ∧ t.snapshotTs = t'.snapshotTs) ∨
      c = .beginInsert T t'.snapshotTs := by
  cases h with
  | draw | log | drawImport | logImport => cases ht'
  | insert =>
    cases ht'
    exact .inr rfl
  | insertImport => exact absurd rfl (himport _ _ _ _ _)
  | read | scanRow | write | prepare =>
    cases ht'
    exact .inl ⟨_, rfl, rfl⟩
  | _ => exact .inl ⟨t', ht', rfl⟩

/-- A commit with nothing left to put has all its writes in the store. -/
theorem Phase.applied_of_pending {p : Phase ι} {t : Transaction} {ts : Timestamp}
    (h : p.commitOf = some (t, ts)) (hp : p.pending = []) : p.applied = some (ts, t.writeSet) := by
  cases p with
  | committing i t' ts' rest =>
    cases h
    cases (show rest = [] from hp)
    simp [Phase.applied]
  | committed t' ts' =>
    cases h
    rfl
  | _ => cases h

theorem Sessions.pending_nil {s : Clients} {phase : TxnId → Phase ThreadId} (h : Sessions s phase)
    (hnothing : s.nothingPending = true) {c : Timestamp} (hc : s.commitTs T = some c) :
    (phase T).pending = [] := by
  have hsim := h.follows.sim
  obtain ⟨hlive, hprogress⟩ := Bool.and_eq_true_iff.mp hnothing
  cases hp : phase T with
  | live t =>
    have hrange := hsim.mem_range_next (T := T) (by rw [hp]; simp)
    have htxn : s.threads.mgr.txns T = some t := by rw [hsim.txns T, hp]; rfl
    have hempty := all_eq_true.mp hlive T hrange
    simp only [htxn, hc] at hempty
    exact isEmpty_iff.mp hempty
  | committing i t ts rest =>
    exact isEmpty_iff.mp (all_eq_true.mp hprogress _ (h.mem_inProgress hp))
  | _ => rfl

end Pending

/-! ## The invariant -/

/-- The snapshot that a `Begin` in progress brings. -/
def Call.beginTs : Call → Option Timestamp
  | .begin ts => some ts
  | .beginLog _ ts => some ts
  | .beginInsert _ ts => some ts
  | _ => none

theorem Call.beginTs_next {c c' : Call} {m m' : TxnManager} {timedOut : Bool} {o : Outcome}
    (hs : c.step m timedOut = some (m', o)) (hnext : o.next = some c') {ts : Timestamp}
    (hts : c'.beginTs = some ts) : c.beginTs = some ts := by
  cases Call.steps hs with
  | «begin» | beginLog =>
    cases hnext
    exact hts
  | _ => cases hnext <;> cases hts

/-- A snapshot that has been drawn, and is or was in use. -/
def SnapshotDrawn (s : Clients) (phase : TxnId → Phase ThreadId) (snap : Timestamp) : Prop :=
  (∃ th, s.snapshot th = some snap) ∨
  (∃ th op c, s.threads.calls th = some (op, c) ∧ c.beginTs = some snap) ∨
  ∃ T t, (phase T).archived = some t ∧ t.snapshotTs = snap

/-- The snapshot of a transaction. -/
def snapshotOf {ι : Type*} (phase : TxnId → Phase ι) (T : TxnId) : Option Timestamp :=
  (phase T).archived.map Transaction.snapshotTs

/-- What a read in progress will answer is what the store would answer now. -/
def SnapshotCall (phase : TxnId → Phase ThreadId) (store : MVCCStore) (op : Op) : Call → Prop
  | .readStore T tb k ts => snapshotOf phase T = some ts ∧
      latestBuffered (writesOf (phase T).archived) tb k = none
  | .scanStore T _ ts ws => snapshotOf phase T = some ts ∧ writesOf (phase T).archived = ws
  | c => ∀ r, c.answer = some r → ∃ T snap, op.txnId = some T ∧ snapshotOf phase T = some snap ∧
      r = op.replyAt store (writesOf (phase T).archived) snap

/-- Every answer so far is the one that the store would give now. -/
structure Steady (keys : TableId → Bytes → Bool) (s : Clients) (phase : TxnId → Phase ThreadId) :
    Prop where
  sessions : Sessions s phase
  keyed : ∀ T t, (phase T).archived = some t → ∀ w ∈ t.writeSet, keys w.tableId w.key = true
  writing : ∀ th op c T w, s.threads.calls th = some (op, c) → op.asWrite = some (T, w) →
    keys w.tableId w.key = true
  /-- Older commits than a snapshot are all in the store. -/
  quiet : ∀ snap, SnapshotDrawn s phase snap → snap < s.clock ∧
    ∀ T c, s.commitTs T = some c → c ≤ snap → (phase T).pending = []
  reading : ∀ th op c, s.threads.calls th = some (op, c) → op.isRead = true →
    SnapshotCall phase s.threads.mgr.store op c
  answered : ∀ T a, a ∈ answers T s.threads.history → ∃ snap, snapshotOf phase T = some snap ∧
    a.reply = a.op.replyAt s.threads.mgr.store a.own snap

theorem Steady.init (keys : TableId → Bytes → Bool) :
    Steady keys Clients.init (fun _ => .unborn) where
  sessions := Sessions.init
  keyed := fun _ _ h => by cases h
  writing := fun _ _ _ _ _ h => by cases h
  quiet := by
    rintro snap (⟨th, h⟩ | ⟨th, op, c, h, -⟩ | ⟨T, t, h, -⟩)
    · cases h
    · cases h
    · cases h
  reading := fun _ _ _ h => by cases h
  answered := fun _ _ h => by cases h

/-- The rows in the store have been written by somebody. -/
theorem Sessions.prefixFree {keys : TableId → Bytes → Bool} {s : Clients}
    {phase : TxnId → Phase ThreadId} (h : Sessions s phase)
    (hkeyed : ∀ T t, (phase T).archived = some t → ∀ w ∈ t.writeSet, keys w.tableId w.key = true)
    (hkeys : ∀ tb k k', keys tb k = true → keys tb k' = true → k <+: k' → k = k') :
    s.threads.mgr.store.PrefixFree := by
  have hversion : ∀ tb k ts, MVCCStore.version s.threads.mgr.store tb k ts ≠ none →
      keys tb k = true := by
    intro tb k ts hver
    obtain ⟨v, hv⟩ := ne_none_iff_exists'.mp hver
    obtain ⟨T, ws, happ, hw⟩ := (h.store.version tb k ts v).mp hv
    obtain ⟨t, ht, hsub⟩ := Phase.applied_subset happ
    obtain ⟨w, hmem, rfl, rfl, -⟩ := mem_of_lastWrite hw
    exact hkeyed T t ht w (hsub hmem)
  exact ⟨h.store.keys, fun tb k k' ts ts' hk hk' =>
    hkeys tb k k' (hversion tb k ts hk) (hversion tb k' ts' hk')⟩

/-! ## Reads in progress -/

section Reads

variable {phase phase' : TxnId → Phase ThreadId} {store store' : MVCCStore} {op : Op}

/-- The answer of the store to a transaction. -/
def AnswerOf (phase : TxnId → Phase ThreadId) (store : MVCCStore) (op : Op) (r : Reply) : Prop :=
  ∃ T snap, op.txnId = some T ∧ snapshotOf phase T = some snap ∧
    r = op.replyAt store (writesOf (phase T).archived) snap

variable {r : Reply}

theorem SnapshotCall.answerOf (h : SnapshotCall phase store op c)
    (hr : c.answer = some r) : AnswerOf phase store op r := by
  cases c with
  | readRecord | scanRow => exact h r hr
  | _ => cases hr

theorem snapshotCall_of_answer (hr : c.answer = some r)
    (h : AnswerOf phase store op r) : SnapshotCall phase store op c := by
  cases c with
  | readRecord | scanRow =>
    intro r' hr'
    cases hr
    cases hr'
    exact h
  | _ => cases hr

/-- The steps of others do not change what a read will answer. -/
theorem SnapshotCall.frame (h : SnapshotCall phase store op c) (hserves : c.Serves op)
    (hsame : ∀ T snap, op.txnId = some T → snapshotOf phase T = some snap →
      snapshotOf phase' T = some snap ∧
      writesOf (phase' T).archived = writesOf (phase T).archived ∧
      ∀ own, op.replyAt store' own snap = op.replyAt store own snap) :
    SnapshotCall phase' store' op c := by
  cases hr : c.answer with
  | some r =>
    obtain ⟨T, snap, hT, hsnap, rfl⟩ := h.answerOf hr
    obtain ⟨hsnap', hwrites, hreply⟩ := hsame T snap hT hsnap
    exact snapshotCall_of_answer hr ⟨T, snap, hT, hsnap', by rw [hwrites, hreply]⟩
  | none =>
    cases c with
    | readStore T tb k ts =>
      obtain ⟨hsnap, hnone⟩ := h
      obtain ⟨hsnap', hwrites, -⟩ := hsame T ts (by rw [show op = _ from hserves]; rfl) hsnap
      exact ⟨hsnap', by rw [hwrites]; exact hnone⟩
    | scanStore T r ts ws =>
      obtain ⟨hsnap, hws⟩ := h
      obtain ⟨hsnap', hwrites, -⟩ := hsame T ts (by rw [show op = _ from hserves]; rfl) hsnap
      exact ⟨hsnap', hwrites.trans hws⟩
    | readRecord | scanRow => cases hr
    | _ =>
      intro r hr'
      cases hr'

variable {m : TxnManager}

section

variable (h : SnapshotCall phase m.store op c)
  (hlive : ∀ T t, m.txns T = some t → phase T = .live t)
include h hlive

/-- What a step of a read fixes is what the store says. -/
theorem SnapshotCall.more {c' : Call}
    (hstep : ReadStep m op c (.more c')) : SnapshotCall phase m.store op c' := by
  cases hstep with
  | toGet ht hb =>
    have hp := hlive _ _ ht
    exact ⟨by rw [snapshotOf, hp]; rfl, by rw [hp]; exact hb⟩
  | @found T tb k v ts vts hg =>
    refine snapshotCall_of_answer rfl ⟨T, ts, rfl, h.1, ?_⟩
    simp only [Op.replyAt, h.2, hg]
    rfl
  | toScan ht =>
    have hp := hlive _ _ ht
    exact ⟨by rw [snapshotOf, hp]; rfl, by rw [hp]; rfl⟩
  | @scanned T r ts ws =>
    refine snapshotCall_of_answer rfl ⟨T, ts, rfl, h.1, ?_⟩
    simp only [Op.replyAt, h.2, nil_append]
  | goOn hc hc' => exact snapshotCall_of_answer hc' (h.answerOf hc)

theorem SnapshotCall.done (hstep : ReadStep m op c (.done r))
    (hr : r.isAnswer = true) : AnswerOf phase m.store op r := by
  cases hstep with
  | refuse he =>
    rw [hr] at he
    cases he
  | @own T tb k t bw ht hb =>
    have hp := hlive _ _ ht
    refine ⟨T, t.snapshotTs, rfl, by rw [snapshotOf, hp]; rfl, ?_⟩
    have hwrites : writesOf (phase T).archived = t.writeSet := by rw [hp]; rfl
    simp only [Op.replyAt, hwrites, hb]
  | @missing T tb k ts hg =>
    refine ⟨T, ts, rfl, h.1, ?_⟩
    simp only [Op.replyAt, h.2, hg]
    rfl
  | finish hc => exact h.answerOf hc

end

end Reads

/-! ## Steps -/

section Steps

variable {keys : TableId → Bytes → Bool} {s : Clients} {phase : TxnId → Phase ThreadId}
  {th : ThreadId} {op : Op} {timedOut : Bool} {m : TxnManager} {o : Outcome} {p : Phase ThreadId}
  {snap : Timestamp} {T' : TxnId}

/-- Steps do not touch the versions up to a snapshot. -/
theorem Steady.version_step (h : Steady keys s phase) (hc : s.threads.calls th = some (op, c))
    (hs : c.step s.threads.mgr timedOut = some (m, o)) (hsnap : SnapshotDrawn s phase snap)
    (tb : TableId) (k : Bytes) (ts : Timestamp) (hle : ts ≤ snap) :
    MVCCStore.version m.store tb k ts = MVCCStore.version s.threads.mgr.store tb k ts := by
  rcases Call.step_store hs with ⟨T, c', w, rest, rfl, hstore, -⟩ | ⟨hstore, -⟩
  · obtain ⟨t, hp⟩ := h.sessions.follows.sim.call th _ (Threads.pcs_eq_some hc)
    have hcommit := h.sessions.commits T t c' (by rw [hp]; rfl)
    have hlater : ts ≠ c' := by
      rintro rfl
      have hpending := (h.quiet snap hsnap).2 T ts hcommit hle
      rw [hp] at hpending
      cases hpending
    rw [hstore, version_apply, if_neg (fun hand => hlater hand.2)]
  · rw [hstore]

/-- No step brings a new snapshot. -/
theorem SnapshotDrawn.of_step (hsessions : Sessions s phase)
    (hc : s.threads.calls th = some (op, c)) (hs : c.step s.threads.mgr timedOut = some (m, o))
    (hmove : Move th T c s.threads.mgr.store (phase T) m.store p)
    (h : SnapshotDrawn { s with threads := s.threads.after th op m o } (update phase T p)
      snap) : SnapshotDrawn s phase snap := by
  rcases h with hdrawn | ⟨j, op', c', hj, hts⟩ | ⟨T', t, ht, hts⟩
  · exact .inl hdrawn
  · rcases Threads.calls_after_cases hj with ⟨-, rfl, rfl⟩ | ⟨-, hj⟩
    · exact .inr (.inl ⟨th, op', c, hc, Call.beginTs_next hs rfl hts⟩)
    · exact .inr (.inl ⟨j, op', c', hj, hts⟩)
  · rcases update_cases ht with ⟨rfl, hat⟩ | ⟨-, ht⟩
    · rcases hmove.snapshotTs_cases hat (hsessions.not_import hc).2 with ⟨t0, ht0, heq⟩ | rfl
      · exact .inr (.inr ⟨T', t0, ht0, heq.trans hts⟩)
      · exact .inr (.inl ⟨th, op, _, hc, by rw [← hts]; rfl⟩)
    · exact .inr (.inr ⟨T', t, ht, hts⟩)

theorem snapshotOf_step (hmove : Move th T c s.threads.mgr.store (phase T) m.store p)
    (h : snapshotOf phase T' = some snap) :
    snapshotOf (update phase T p) T' = some snap := by
  refine update_mono (P := fun p : Phase ThreadId => p.archived.map Transaction.snapshotTs = some snap) ?_ h
  intro _ h
  obtain ⟨t, ht, hts⟩ := map_eq_some_iff.mp h
  obtain ⟨t', ht', hsame⟩ := hmove.snapshotTs ht
  rw [ht', ← hts, ← hsame]
  rfl

theorem snapshotDrawn_of_snapshotOf (h : snapshotOf phase T' = some snap) :
    SnapshotDrawn s phase snap := by
  obtain ⟨t, ht, hts⟩ := map_eq_some_iff.mp h
  exact .inr (.inr ⟨T', t, ht, hts⟩)

section

variable (h : Steady keys s phase) (hc : s.threads.calls th = some (op, c))
  (hmove : Move th T c s.threads.mgr.store (phase T) m.store p)
include h hc hmove

theorem Steady.keyed_step (T' : TxnId) (t : Transaction)
    (ht : (update phase T p T').archived = some t) :
    ∀ w ∈ t.writeSet, keys w.tableId w.key = true := by
  intro w hw
  rcases hmove.write_cases (h.sessions.not_import hc).2 ht hw with ⟨t0, ht0, hw⟩ | ⟨-, t0, -, rfl⟩
  · exact h.keyed T' t0 ht0 w hw
  · exact h.writing th op _ T' w hc (h.sessions.serves th op _ hc)

/-- Older commits than a snapshot stay in the store. -/
theorem Steady.pending_step (hsnap : SnapshotDrawn s phase snap) {ts : Timestamp}
    (hts : s.commitTs T' = some ts) (hle : ts ≤ snap) : (update phase T p T').pending = [] := by
  have hbefore := (h.quiet snap hsnap).2 T' ts hts hle
  refine update_mono (P := fun p : Phase ThreadId => p.pending = []) ?_ hbefore
  · rintro rfl hbefore
    refine hmove.pending_nil ?_ (h.sessions.not_import hc).2 hbefore
    rintro w rfl
    have hnone := h.sessions.writing th op _ T' w hc (h.sessions.serves th op _ hc)
    rw [hts] at hnone
    cases hnone

end

/-- **A step keeps the answers in step with the store.** -/
theorem Steady.step (h : Steady keys s phase)
    (hkeys : ∀ tb k k', keys tb k = true → keys tb k' = true → k <+: k' → k = k')
    (hc : s.threads.calls th = some (op, c)) (hs : c.step s.threads.mgr timedOut = some (m, o)) :
    ∃ phase', Steady keys { s with threads := s.threads.after th op m o } phase' := by
  have hserves := h.sessions.serves th op c hc
  obtain ⟨T, p, hmove, hsessions⟩ := h.sessions.step hc hs s.snapshot
  have hkeyed := h.keyed_step hc hmove
  have hfree := h.sessions.prefixFree h.keyed hkeys
  have hfree' : m.store.PrefixFree := by
    have := hsessions.prefixFree hkeyed hkeys
    simpa only [Threads.mgr_after] using this
  -- the answers at a snapshot that is in use do not change
  have hreply : ∀ {T' snap}, snapshotOf phase T' = some snap → ∀ (op' : Op) own,
      op'.replyAt m.store own snap = op'.replyAt s.threads.mgr.store own snap :=
    fun hsnap op' own => Op.replyAt_store hfree hfree'
      (h.version_step hc hs (snapshotDrawn_of_snapshotOf hsnap)) own op'
  have hlive : ∀ T' t, s.threads.mgr.txns T' = some t → phase T' = .live t :=
    fun T' t ht => h.sessions.follows.sim.live ht
  -- what a reader has written is not changed by a step that is not its own write
  have hframe : ∀ {op' : Op} {c' : Call}, SnapshotCall phase s.threads.mgr.store op' c' →
      c'.Serves op' → (∀ T', op'.txnId = some T' → ∀ w, c ≠ .buffer T' w) →
      SnapshotCall (update phase T p) m.store op' c' := by
    intro op' c' hcall hserves' hother
    refine hcall.frame hserves' fun T' snap hT' hsnap => ⟨snapshotOf_step hmove hsnap, ?_, ?_⟩
    · exact h.sessions.writesOf_same hc hmove (hother T' hT')
    · exact hreply hsnap op'
  refine ⟨update phase T p, hsessions, hkeyed, ?_, ?_, ?_, ?_⟩
  · intro j op' c' T' w hj hw
    rcases Threads.calls_after_cases hj with ⟨-, rfl, -⟩ | ⟨-, hj⟩
    · exact h.writing th op' c T' w hc hw
    · exact h.writing j op' c' T' w hj hw
  · intro snap hsnap
    have hbefore := hsnap.of_step h.sessions hc hs hmove
    exact ⟨(h.quiet snap hbefore).1, fun T' ts hts hle => h.pending_step hc hmove hbefore hts hle⟩
  · intro j op' c' hj hread
    show SnapshotCall _ (s.threads.after th op m o).mgr.store op' c'
    rw [Threads.mgr_after]
    rcases Threads.calls_after_cases hj with ⟨-, rfl, rfl⟩ | ⟨hjt, hj⟩
    · have hcall := (h.reading th op' c hc hread).more hlive (hserves.readStep hread hs)
      exact hframe hcall (hserves.next hs rfl) fun T' _ w => hserves.not_buffer hread T' w
    · refine hframe (h.reading j op' c' hj hread) (h.sessions.serves j op' c' hj) ?_
      rintro T' hT' w rfl
      have hdrives := h.sessions.driven th op _ T' hc (Op.txnId_of_asWrite hserves).1
      exact hjt (h.sessions.driver j th T' (h.sessions.driven j op' c' T' hj hT') hdrives)
  · intro T' a ha
    show ∃ snap, _ ∧ a.reply = a.op.replyAt (s.threads.after th op m o).mgr.store a.own snap
    rw [Threads.mgr_after]
    have hold : a ∈ answers T' s.threads.history → ∃ snap,
        snapshotOf (update phase T p) T' = some snap ∧
          a.reply = a.op.replyAt m.store a.own snap := by
      intro ha
      obtain ⟨snap, hsnap, hrep⟩ := h.answered T' a ha
      exact ⟨snap, snapshotOf_step hmove hsnap, by rw [hreply hsnap, hrep]⟩
    rcases answers_after_cases ha with hearlier | ⟨r, rfl, hread, hT', hans, rfl⟩
    · exact hold hearlier
    · have hstep := hserves.readStep hread hs
      obtain ⟨T0, snap, hT0, hsnap, hr⟩ := (h.reading th op c hc hread).done hlive hstep hans
      obtain rfl : T0 = T' := some.inj (hT0.symm.trans hT')
      refine ⟨snap, snapshotOf_step hmove hsnap, ?_⟩
      dsimp only
      rw [hreply hsnap, h.sessions.own T0]
      exact hr

/-! ## Runs -/

theorem Steady.enter (h : Steady keys s phase) {op : Op} (hth : s.threads.calls th = none)
    (hpermits : s.permits (.start th op) = true)
    (hsteady : s.steady keys (.act (.start th op)) = true) :
    Steady keys { s with
      threads := s.threads.enter th op
      snapshot := s.useSnapshot (.start th op) } phase := by
  refine ⟨h.sessions.enter hth hpermits _, h.keyed, ?_, ?_, ?_, h.answered⟩
  · intro j op' c' T w hj hw
    rcases Threads.calls_enter_cases hj with ⟨-, rfl, -⟩ | ⟨-, hj⟩
    · simpa only [Clients.steady, hw] using hsteady
    · exact h.writing j op' c' T w hj hw
  · intro snap hsnap
    refine h.quiet snap ?_
    rcases hsnap with ⟨j, hj⟩ | ⟨j, op', c', hj, hts⟩ | harch
    · refine .inl ⟨j, ?_⟩
      replace hj : s.useSnapshot (.start th op) j = some snap := hj
      cases op with
      | «begin» ts =>
        by_cases hjt : j = th
        · rw [hjt] at hj
          simp [Clients.useSnapshot] at hj
        · simpa [Clients.useSnapshot, hjt] using hj
      | _ => exact hj
    · rcases Threads.calls_enter_cases hj with ⟨-, -, rfl⟩ | ⟨-, hj⟩
      · -- the snapshot that the thread has drawn
        cases op with
        | «begin» ts =>
          cases hts
          exact .inl ⟨th, of_decide_eq_true hpermits⟩
        | _ => cases hts
      · exact .inr (.inl ⟨j, op', c', hj, hts⟩)
    · exact .inr (.inr harch)
  · intro j op' c' hj hread
    rcases Threads.calls_enter_cases hj with ⟨-, rfl, rfl⟩ | ⟨-, hj⟩
    · cases op' with
      | read | scan => exact fun r hr => by cases hr
      | _ => cases hread
    · exact h.reading j op' c' hj hread

theorem Steady.drawSnapshot (h : Steady keys s phase) (hclock : s.clock < s.clock + 1)
    (hnothing : s.nothingPending = true) :
    Steady keys { s with
      clock := s.clock + 1
      snapshot := update s.snapshot th (some s.clock) } phase := by
  refine ⟨h.sessions.drawSnapshot hclock _, h.keyed, h.writing, ?_, h.reading, h.answered⟩
  intro snap hsnap
  have hcases : snap = s.clock ∨ SnapshotDrawn s phase snap := by
    rcases hsnap with ⟨j, hj⟩ | hcall | harch
    · rcases update_eq_cases hj with ⟨-, hj⟩ | ⟨-, hj⟩
      · exact .inl (some.inj hj).symm
      · exact .inr (.inl ⟨j, hj⟩)
    · exact .inr (.inr (.inl hcall))
    · exact .inr (.inr (.inr harch))
  rcases hcases with rfl | hold
  · exact ⟨hclock, fun T c hc _ => h.sessions.pending_nil hnothing hc⟩
  · obtain ⟨hlt, hquiet⟩ := h.quiet snap hold
    exact ⟨UInt64.lt_trans hlt hclock, hquiet⟩

theorem Steady.drawCommit (h : Steady keys s phase) (hclock : s.clock < s.clock + 1)
    (hdrives : s.threads.drives th T = true) (hidle : s.threads.calls th = none)
    (hnone : s.commitTs T = none) :
    Steady keys { s with
      clock := s.clock + 1
      commitTs := update s.commitTs T (some s.clock) } phase := by
  refine ⟨h.sessions.draw hclock hdrives hidle hnone, h.keyed, h.writing, ?_, h.reading, h.answered⟩
  intro snap hsnap
  obtain ⟨hlt, hquiet⟩ := h.quiet snap hsnap
  refine ⟨UInt64.lt_trans hlt hclock, ?_⟩
  intro T' c hc hle
  rcases update_eq_cases hc with ⟨-, hc⟩ | ⟨-, hc⟩
  · rw [← some.inj hc] at hle
    exact absurd (UInt64.lt_of_le_of_lt hle hlt) (UInt64.lt_irrefl _)
  · exact hquiet T' c hc hle

theorem run_steady (hkeys : ∀ tb k k', keys tb k = true → keys tb k' = true → k <+: k' → k = k')
    {acts : List ClientAction}
    (hC : clients.Meets (fun s a => s.steady keys a = true) clients.init acts)
    (h : clients.run acts = some s) : ∃ phase, Steady keys s phase := by
  refine Machine.inv_run_of_meets (I := fun s => ∃ phase, Steady keys s phase)
    ⟨_, Steady.init keys⟩ ?_ hC h
  rintro s a s' ⟨phase, hsteady⟩ hcond hstep
  rcases Clients.step_cases hstep with
    ⟨th, rfl, hclock, rfl⟩ | ⟨th, T, rfl, hclock, hdrives, hidle, hnone, rfl⟩ |
    ⟨th, op, rfl, hth, hpermits, rfl⟩ | ⟨th, timedOut, op, c, m, o, rfl, hc, hs, rfl⟩
  · exact ⟨phase, hsteady.drawSnapshot hclock hcond⟩
  · exact ⟨phase, hsteady.drawCommit hclock hdrives hidle hnone⟩
  · exact ⟨phase, hsteady.enter hth hpermits hcond⟩
  · exact hsteady.step hkeys hc hs

variable {ts : Timestamp} {tb : TableId} {k : Bytes} {own : List BufferedWrite}

/-- The versions up to a snapshot are the writes of the transactions committed till then. -/
theorem Steady.version_iff (h : Steady keys s phase) (hsnap : SnapshotDrawn s phase snap)
    {v : Bytes} (hle : ts ≤ snap) : MVCCStore.version s.threads.mgr.store tb k ts = some v ↔
      ∃ W, (W, ts) ∈ s.threads.committed ∧ s.threads.wrote W tb k = some v := by
  have happlied : ∀ {W t}, (phase W).commitOf = some (t, ts) →
      (phase W).applied = some (ts, t.writeSet) := fun hcommit =>
    Phase.applied_of_pending hcommit
      ((h.quiet snap hsnap).2 _ _ (h.sessions.commits _ _ _ hcommit) hle)
  rw [h.sessions.store.version]
  constructor
  · rintro ⟨W, ws, happ, hw⟩
    obtain ⟨t, hcommit⟩ := Phase.commitOf_of_applied happ
    rw [happlied hcommit] at happ
    cases happ
    exact ⟨W, h.sessions.mem_committed.mpr ⟨t, hcommit⟩,
      (h.sessions.wrote_of_commitOf hcommit tb k).trans hw⟩
  · rintro ⟨W, hmem, hwrote⟩
    obtain ⟨t, hcommit⟩ := h.sessions.mem_committed.mp hmem
    rw [h.sessions.wrote_of_commitOf hcommit] at hwrote
    exact ⟨W, t.writeSet, happlied hcommit, hwrote⟩

theorem Steady.newest_iff (h : Steady keys s phase) {snap : Timestamp}
    (hsnap : SnapshotDrawn s phase snap) {k v : Bytes} {ts : Timestamp} :
    MVCCStore.Newest s.threads.mgr.store tb k snap ts v ↔
      ∃ W, s.threads.LastWriter snap tb k (W, ts) ∧ s.threads.wrote W tb k = some v := by
  constructor
  · rintro ⟨hver, hle, hnew⟩
    obtain ⟨W, hmem, hwrote⟩ := (h.version_iff hsnap hle).mp hver
    refine ⟨W, ⟨hmem, hle, by rw [hwrote]; simp, ?_⟩, hwrote⟩
    rintro ⟨W', ts'⟩ hmem' hle' hwrote'
    obtain ⟨v', hv'⟩ := ne_none_iff_exists'.mp hwrote'
    have hver' := (h.version_iff hsnap hle').mpr ⟨W', hmem', hv'⟩
    by_contra hnot
    rw [hnew ts' (UInt64.not_le.mp hnot) hle'] at hver'
    cases hver'
  · rintro ⟨W, ⟨hmem, hle, -, hlast⟩, hwrote⟩
    refine ⟨(h.version_iff hsnap hle).mpr ⟨W, hmem, hwrote⟩, hle, ?_⟩
    intro ts' hlt hle'
    cases hver : MVCCStore.version s.threads.mgr.store tb k ts' with
    | none => rfl
    | some v' =>
      obtain ⟨W', hmem', hwrote'⟩ := (h.version_iff hsnap hle').mp hver
      have hge := hlast (W', ts') hmem' hle' (by rw [hwrote']; simp)
      exact absurd hlt (UInt64.not_lt.mpr hge)

/-- A result that shows just the newest version is the row of the snapshot. -/
theorem Steady.snapshotRow (h : Steady keys s phase) (hsnap : SnapshotDrawn s phase snap)
    {result : Option Bytes} (hresult : ∀ v, result = some v ↔
      isTombstone v = false ∧ ∃ ts, MVCCStore.Newest s.threads.mgr.store tb k snap ts v) :
    s.threads.SnapshotRow snap tb k result := by
  cases result with
  | some v =>
    obtain ⟨hvalue, ts, hnewest⟩ := (hresult v).mp rfl
    obtain ⟨W, hlast, hwrote⟩ := (h.newest_iff hsnap).mp hnewest
    exact ⟨hvalue, (W, ts), hlast, hwrote⟩
  | none =>
    rintro ⟨W, ts⟩ hlast
    obtain ⟨v, hv⟩ := ne_none_iff_exists'.mp hlast.2.2.1
    have hnewest := (h.newest_iff hsnap).mpr ⟨W, hlast, hv⟩
    by_cases htomb : isTombstone v = true
    · rw [hv, of_decide_eq_true htomb]
    · have hshown := (hresult v).mpr ⟨Bool.eq_false_iff.mpr htomb, ts, hnewest⟩
      cases hshown

/-- A row without own writes is shown as the scan has it. -/
theorem lookup_mergeRows (hnone : latestBuffered own tb k = none) (rows : List ScanRow) :
    (mergeRows own tb rows).lookup k =
      (rows.find? fun row => decide (row.pk = k)).map ScanRow.value := by
  induction rows with
  | nil => rfl
  | cons row rows ih =>
    have hcons : mergeRows own tb (row :: rows) = mergeRow own tb row ++ mergeRows own tb rows := rfl
    rw [hcons, find?_cons]
    by_cases hk : row.pk = k
    · subst hk
      simp [mergeRow, hnone]
    · have hk' : (k == row.pk) = false := by simpa using fun heq => hk heq.symm
      have hskip : (mergeRow own tb row ++ mergeRows own tb rows).lookup k =
          (mergeRows own tb rows).lookup k := by
        unfold mergeRow
        split
        · split_ifs
          · rfl
          · simp [lookup_cons, hk']
        · simp [lookup_cons, hk']
      rw [hskip, ih]
      simp [hk]

/-- What the store answers of a row without own writes. -/
theorem row_replyAt {store : MVCCStore} (hfree : store.PrefixFree) {op : Op}
    (hasks : op.asks tb k = true) (hnone : latestBuffered own tb k = none) (v : Bytes) :
    op.rowOf (op.replyAt store own snap) k = some v ↔
      isTombstone v = false ∧ ∃ ts, MVCCStore.Newest store tb k snap ts v := by
  cases op with
  | read T tb' k' =>
    obtain ⟨rfl, rfl⟩ := of_decide_eq_true hasks
    simp only [Op.rowOf, Op.replyAt, hnone]
    cases hg : MVCCStore.get store tb' k' snap with
    | none =>
      simp only [replyOfGet, Reply.of]
      constructor
      · intro hrow
        cases hrow
      · rintro ⟨hvalue, ts, hnewest⟩
        rw [hfree.get_iff.mpr ⟨hnewest, hvalue⟩] at hg
        cases hg
    | some vts =>
      obtain ⟨v', ts'⟩ := vts
      obtain ⟨hnewest', hvalue'⟩ := hfree.get_iff.mp hg
      simp only [replyOfGet, if_true, some.injEq]
      constructor
      · rintro rfl
        exact ⟨hvalue', ts', hnewest'⟩
      · rintro ⟨-, ts, hnewest⟩
        exact (hnewest'.unique hnewest).2
  | scan T r =>
    obtain ⟨htb, hin⟩ := Bool.and_eq_true_iff.mp hasks
    obtain rfl := of_decide_eq_true htb
    simp only [Op.rowOf, Op.replyAt]
    rw [lookup_mergeRows hnone, map_eq_some_iff]
    constructor
    · rintro ⟨row, hfind, rfl⟩
      have hpk : row.pk = k := by simpa using find?_some hfind
      obtain ⟨-, hnewest, hvalue⟩ := hfree.mem_scan_iff.mp (mem_of_find?_eq_some hfind)
      exact ⟨hvalue, row.writeTs, hpk ▸ hnewest⟩
    · rintro ⟨hvalue, ts, hnewest⟩
      have hmem : (⟨k, v, ts⟩ : ScanRow) ∈ MVCCStore.scan store r snap :=
        hfree.mem_scan_iff.mpr ⟨hin, hnewest, hvalue⟩
      cases hfind : (MVCCStore.scan store r snap).find? fun row => decide (row.pk = k) with
      | none => exact absurd (find?_eq_none.mp hfind _ hmem) (by simp)
      | some row =>
        have hpk : row.pk = k := by simpa using find?_some hfind
        obtain ⟨-, hnewest', -⟩ := hfree.mem_scan_iff.mp (mem_of_find?_eq_some hfind)
        rw [hpk] at hnewest'
        exact ⟨row, rfl, (hnewest'.unique hnewest).2⟩
  | _ => cases hasks

/-- **Snapshots are stable.**  Two reads of a row, or two scans of a range, give the same
answer if the reader's own last writes there are the same; and what they show of rows
without own writes is the state that the transactions committed up to the snapshot have
made, each as a whole. -/
theorem snapshots_stable
    (hkeys : ∀ tb k k', keys tb k = true → keys tb k' = true → k <+: k' → k = k')
    {acts : List ClientAction}
    (hC : clients.Meets (fun s a => s.steady keys a = true) clients.init acts)
    (h : clients.run acts = some s) {R : TxnId} {t : Transaction}
    (ht : s.threads.archive R = some t) :
    (∀ a ∈ answers R s.threads.history, ∀ b ∈ answers R s.threads.history, a.op = b.op →
      (∀ tb k, a.op.asks tb k = true → latestBuffered a.own tb k = latestBuffered b.own tb k) →
        a.reply = b.reply) ∧
    ∀ a ∈ answers R s.threads.history, ∀ tb k, a.op.asks tb k = true →
      latestBuffered a.own tb k = none → s.threads.SnapshotRow t.snapshotTs tb k (a.row k) := by
  obtain ⟨phase, hsteady⟩ := run_steady hkeys hC h
  have hfree := hsteady.sessions.prefixFree hsteady.keyed hkeys
  have hsnap : snapshotOf phase R = some t.snapshotTs := by
    rw [snapshotOf, ← hsteady.sessions.follows.archive, ht]
    rfl
  have hreply : ∀ a ∈ answers R s.threads.history,
      a.reply = a.op.replyAt s.threads.mgr.store a.own t.snapshotTs := by
    intro a ha
    obtain ⟨snap, hsnap', hrep⟩ := hsteady.answered R a ha
    rw [hsnap] at hsnap'
    cases hsnap'
    exact hrep
  refine ⟨?_, ?_⟩
  · intro a ha b hb hop hown
    rw [hreply a ha, hreply b hb, ← hop]
    exact Op.replyAt_own hfree hown
  · intro a ha tb k hasks hnone
    refine hsteady.snapshotRow (snapshotDrawn_of_snapshotOf hsnap) fun v => ?_
    rw [Answer.row, hreply a ha]
    exact row_replyAt hfree hasks hnone v

end Steps

/-- A transaction reads a row twice; in between another one commits a new value of it. -/
def readsTwice : List ClientAction :=
  commitRow ++
    [.drawSnapshot 1] ++ clientCall 1 (.begin 3) 3 ++ clientCall 1 (.read 2 7 [1]) 3 ++
    [.drawSnapshot 2] ++ clientCall 2 (.begin 4) 3 ++ clientCall 2 (.write 3 7 [1] [6]) 2 ++
    [.drawCommit 2 3] ++ clientCall 2 (.prepare 3 5) 1 ++ clientCall 2 (.commit 3 5) 5 ++
    clientCall 1 (.read 2 7 [1]) 3

/-- The keys of one byte. -/
def oneByte (_ : TableId) (k : Bytes) : Bool := decide (k.length = 1)

theorem oneByte_apart (tb : TableId) (k k' : Bytes) (hk : oneByte tb k = true)
    (hk' : oneByte tb k' = true) (hp : k <+: k') : k = k' :=
  hp.eq_of_length ((of_decide_eq_true hk).trans (of_decide_eq_true hk').symm)

theorem snapshots_stable_readsTwice :
    ∃ s a b, clients.run readsTwice = some s ∧ answers 2 s.threads.history = [a, b] ∧
      a.op = .read 2 7 [1] ∧ b.op = .read 2 7 [1] ∧ a.reply = b.reply ∧
      s.threads.SnapshotRow 3 7 [1] (a.row [1]) := by
  obtain ⟨s, hs, t, ht, hsnap, hanswers⟩ : ∃ s, clients.run readsTwice = some s ∧ ∃ t,
      s.threads.archive 2 = some t ∧ t.snapshotTs = 3 ∧ answers 2 s.threads.history =
        [⟨[], .read 2 7 [1], ⟨.ok, none, [5], []⟩⟩, ⟨[], .read 2 7 [1], ⟨.ok, none, [5], []⟩⟩] := by
    decide +kernel
  obtain ⟨hsame, hrow⟩ := snapshots_stable oneByte_apart (by decide +kernel) hs ht
  rw [hanswers] at hsame hrow
  rw [hsnap] at hrow
  refine ⟨s, _, _, hs, hanswers, rfl, rfl, ?_, ?_⟩
  · exact hsame _ (by simp) _ (by simp) rfl fun _ _ _ => rfl
  · exact hrow _ mem_cons_self 7 [1] rfl rfl

/-- A transaction has drawn timestamp 2 for the writes of two rows; one with snapshot 3 reads
a row before they are put, and both rows after the first put. -/
def readsDuringCommit : List ClientAction :=
  [.drawSnapshot 0] ++ clientCall 0 (.begin 1) 3 ++ clientCall 0 (.write 1 7 [1] [5]) 2 ++
    clientCall 0 (.write 1 7 [2] [6]) 2 ++ [.drawCommit 0 1] ++ clientCall 0 (.prepare 1 2) 1 ++
    [.drawSnapshot 1] ++ clientCall 1 (.begin 3) 3 ++ clientCall 1 (.read 2 7 [1]) 2 ++
    clientCall 0 (.commit 1 2) 2 ++ clientCall 1 (.read 2 7 [1]) 3 ++
    clientCall 1 (.read 2 7 [2]) 2

/-- A transaction reads row `[1]` twice; in between another one commits a row whose key has
`[1]` as a prefix. -/
def readsAroundPrefix : List ClientAction :=
  commitRow ++
    [.drawSnapshot 1] ++ clientCall 1 (.begin 3) 3 ++ clientCall 1 (.read 2 7 [1]) 3 ++
    [.drawSnapshot 2] ++ clientCall 2 (.begin 4) 3 ++
    clientCall 2 (.write 3 7 [1, 255, 255, 255, 255, 255, 255, 255, 0] [6]) 2 ++
    [.drawCommit 2 3] ++ clientCall 2 (.prepare 3 5) 1 ++ clientCall 2 (.commit 3 5) 5 ++
    clientCall 1 (.read 2 7 [1]) 2

/-- **Snapshots can change.**  In the first run the transaction misses row 1, then finds it,
and misses row 2 of the same commit; in the second it finds row 1, and then misses it. -/
theorem snapshot_changes :
    (∃ s, clients.run readsDuringCommit = some s ∧ (1, 2) ∈ s.threads.committed ∧
      (s.threads.archive 2).map Transaction.snapshotTs = some 3 ∧
      answers 2 s.threads.history =
        [⟨[], .read 2 7 [2], .of .notFound⟩, ⟨[], .read 2 7 [1], ⟨.ok, none, [5], []⟩⟩,
          ⟨[], .read 2 7 [1], .of .notFound⟩]) ∧
    ∃ s, clients.run readsAroundPrefix = some s ∧ (1, 2) ∈ s.threads.committed ∧
      (s.threads.archive 2).map Transaction.snapshotTs = some 3 ∧
      answers 2 s.threads.history =
        [⟨[], .read 2 7 [1], .of .notFound⟩, ⟨[], .read 2 7 [1], ⟨.ok, none, [5], []⟩⟩] := by
  decide +kernel

end TransDb.Txn
