import TransDb.Txn.Snapshots

/-!
# Rows that are not there

`Prepare` validates the rows that a transaction has found, not those that it has missed.
So another transaction can commit a row that a reader was told is absent, with a timestamp
between the reader's snapshot and its commit.  This cannot happen if no such row is being
written when it is missed, and if none is written later by others until the reader has
drawn its commit timestamp.

* `Clients.foreignWrites`, `Clients.toldAbsent` — what others may still commit above a
  snapshot, and what a reader has been told.
* `Clients.protectsAbsent` — the condition.
* `Clear` — nobody's write of a row can come between a reader's snapshot and its commit.
* `absent_rows_protected` — **no transaction in between commits a row that was missed.**
* `phantom_commits` — runs in which a read and a scan miss such a row.
-/

namespace TransDb.Txn

open List Function Storage

/-! ## The condition -/

namespace Clients

/-- What other transactions have written and may commit above a snapshot. -/
def foreignWrites (s : Clients) (txnId : TxnId) (snap : Timestamp) : List BufferedWrite :=
  ((List.range s.threads.mgr.nextTxnId).flatMap fun W =>
    match s.threads.mgr.txns W with
    | some w => if W = txnId ∨ (s.commitTs W).any (· ≤ snap) = true then [] else w.writeSet
    | none => []) ++
  s.threads.committed.flatMap fun W =>
    if W.1 = txnId ∨ W.2 ≤ snap then [] else writesOf (s.threads.archive W.1)

/-- The reply shows every row that is asked for and that others may commit above the
snapshot. -/
def shows (s : Clients) (txnId : TxnId) (snap : Timestamp) (op : Op) (r : Reply) : Bool :=
  (s.foreignWrites txnId snap).all fun w =>
    !op.asks w.tableId w.key || (op.rowOf r w.key).isSome

/-- A reader has been told that a row is absent, or is just being told. -/
def toldAbsent (s : Clients) (txnId : TxnId) (tableId : TableId) (key : Bytes) : Bool :=
  ((answers txnId s.threads.history).any fun a =>
    a.op.asks tableId key && (a.row key).isNone) ||
  s.threads.history.any fun e =>
    match e with
    | .called th _ =>
      match s.threads.calls th with
      | some (op, c) =>
        decide (op.txnId = some txnId) && op.isRead && op.asks tableId key &&
          c.answer.any fun r => (op.rowOf r key).isNone
      | none => false
    | .returned _ _ _ => false

/-- Readers miss no row that others may commit above their snapshot, and nobody writes a
row that a reader without a commit timestamp has missed. -/
def protectsAbsent (s : Clients) : ClientAction → Bool
  | .act (.step th _) =>
    match s.threads.calls th with
    | some (op, .read T tb k) =>
      match s.threads.mgr.txns T with
      | some t =>
        match latestBuffered t.writeSet tb k with
        | some bw => s.shows T t.snapshotTs op bw.reply
        | none => true
      | none => true
    | some (op, .readStore T tb k ts) =>
      s.shows T ts op (replyOfGet (MVCCStore.get s.threads.mgr.store tb k ts))
    | some (op, .scanStore T r ts ws) =>
      s.shows T ts op
        ⟨.ok, none, [], mergeRows ws r.tableId (MVCCStore.scan s.threads.mgr.store r ts)⟩
    | some (_, .buffer W w) =>
      (List.range s.threads.mgr.nextTxnId).all fun T =>
        decide (T = W) || (s.threads.mgr.txns T).isNone || (s.commitTs T).isSome ||
          !s.toldAbsent T w.tableId w.key
    | _ => true
  | _ => true

end Clients

/-! ## Rows that are clear -/

/-- The transaction will not commit. -/
def Phase.gaveUp {ι : Type*} : Phase ι → Bool
  | .aborting _ _ => true
  | .aborted _ => true
  | _ => false

variable {T : TxnId} {c : Call}

theorem Move.gaveUp_mono {ι : Type*} {i : ι} {s s' : MVCCStore}
    {p p' : Phase ι} (h : Move i T c s p s' p') (hp : p.gaveUp = true) : p'.gaveUp = true := by
  cases h with
  | stay => exact hp
  | abort => rfl
  | _ => cases hp

/-- Nobody's write of the row can come between the snapshot of a reader and its commit:
every other writer has a commit timestamp up to the snapshot, or the reader gives up, or
the writer's timestamp is above that of the reader. -/
def Clear {ι : Type*} (commitTs : TxnId → Option Timestamp) (phase : TxnId → Phase ι) (T : TxnId)
    (snap : Timestamp) (tb : TableId) (k : Bytes) : Prop :=
  ∀ W tW, W ≠ T → (phase W).mayCommit = some tW → touches tW.writeSet tb k = true →
    (∃ cW, commitTs W = some cW ∧ cW ≤ snap) ∨ (phase T).gaveUp = true ∨
      ∃ cT, commitTs T = some cT ∧ ∀ cW, commitTs W = some cW → cT < cW

/-- Where a read is about to go to the store. -/
def Call.readsAt : Call → Option (TxnId × Timestamp)
  | .readStore T _ _ ts => some (T, ts)
  | .scanStore T _ ts _ => some (T, ts)
  | _ => none

theorem Call.Serves.isRead_of_readsAt {op : Op} (h : c.Serves op)
    {x : TxnId × Timestamp} (hx : c.readsAt = some x) : op.isRead = true := by
  cases c with
  | readStore | scanStore =>
    cases h
    rfl
  | _ => cases hx

theorem ReadStep.snapshotTs_of_readsAt {m : TxnManager} {op : Op} {c c' : Call}
    (h : ReadStep m op c (.more c')) {ts : Timestamp}
    (hx : c'.readsAt = some (T, ts)) : ∃ t, m.txns T = some t ∧ t.snapshotTs = ts := by
  cases h with
  | toGet ht | toScan ht =>
    cases hx
    exact ⟨_, ht, rfl⟩
  | found | scanned => cases hx
  | goOn hc hc' =>
    cases c' with
    | readStore | scanStore => cases hc'
    | _ => cases hx

/-- What a reply leaves out is clear. -/
def ClearReply {ι : Type*} (commitTs : TxnId → Option Timestamp) (phase : TxnId → Phase ι)
    (op : Op) (r : Reply) (T : TxnId) : Prop :=
  ∃ snap, snapshotOf phase T = some snap ∧
    ∀ tb k, op.asks tb k = true → op.rowOf r k = none → Clear commitTs phase T snap tb k

/-- **The invariant** of absent rows. -/
structure Protected (s : Clients) (phase : TxnId → Phase ThreadId) : Prop where
  sessions : Sessions s phase
  /-- Reads go to the store at the snapshot. -/
  going : ∀ th op c T ts, s.threads.calls th = some (op, c) → c.readsAt = some (T, ts) →
    snapshotOf phase T = some ts
  reading : ∀ th op c r T, s.threads.calls th = some (op, c) → op.isRead = true →
    c.answer = some r → op.txnId = some T → ClearReply s.commitTs phase op r T
  answered : ∀ T a, a ∈ answers T s.threads.history → ClearReply s.commitTs phase a.op a.reply T

theorem Protected.init : Protected Clients.init (fun _ => .unborn) where
  sessions := Sessions.init
  going := fun _ _ _ _ _ h => by cases h
  reading := fun _ _ _ _ _ h => by cases h
  answered := fun _ _ h => by cases h

section Clear

variable {s : Clients} {phase : TxnId → Phase ThreadId} {snap : Timestamp}

/-- What others have written and may commit above a snapshot is among the foreign writes. -/
theorem Sessions.mem_foreignWrites (h : Sessions s phase) {T W : TxnId} (hW : W ≠ T)
    {tW : Transaction} (hmay : (phase W).mayCommit = some tW)
    (hhigh : ∀ cW, s.commitTs W = some cW → ¬ cW ≤ snap) {w : BufferedWrite}
    (hw : w ∈ tW.writeSet) : w ∈ s.foreignWrites T snap := by
  have hsim := h.follows.sim
  have hcommitted : ∀ ts, (phase W).commitOf = some (tW, ts) → w ∈ s.foreignWrites T snap := by
    intro ts hcommit
    refine mem_append_right _
      (mem_flatMap.mpr ⟨(W, ts), h.mem_committed.mpr ⟨tW, hcommit⟩, ?_⟩)
    have hnot : ¬ (W = T ∨ ts ≤ snap) := by
      rintro (heq | hle)
      · exact hW heq
      · exact hhigh ts (h.commits W tW ts hcommit) hle
    rw [if_neg hnot, h.follows.archive, Phase.archived_of_commitOf hcommit]
    exact hw
  cases hp : phase W with
  | live t =>
    rw [hp] at hmay
    cases hmay
    refine mem_append_left _ (mem_flatMap.mpr ⟨W, hsim.mem_range_next (by rw [hp]; simp), ?_⟩)
    have htxn : s.threads.mgr.txns W = some tW := by rw [hsim.txns W, hp]; rfl
    have hnot : ¬ (W = T ∨ (s.commitTs W).any (· ≤ snap) = true) := by
      rintro (heq | hany)
      · exact hW heq
      · cases hcts : s.commitTs W with
        | none =>
          rw [hcts] at hany
          cases hany
        | some cW =>
          rw [hcts] at hany
          exact hhigh cW hcts (of_decide_eq_true hany)
    simp only [htxn]
    rw [if_neg hnot]
    exact hw
  | committing i t ts rest | committed t ts =>
    rw [hp] at hmay
    cases hmay
    exact hcommitted ts (by rw [hp]; rfl)
  | _ =>
    rw [hp] at hmay
    cases hmay

/-- A row that is missed is clear if all foreign writes are shown. -/
theorem Sessions.clear_of_shows (h : Sessions s phase) {T : TxnId} {op : Op}
    {r : Reply} (hshows : s.shows T snap op r = true) {tb : TableId} {k : Bytes}
    (hasks : op.asks tb k = true) (hrow : op.rowOf r k = none) :
    Clear s.commitTs phase T snap tb k := by
  intro W tW hW hmay htouch
  left
  by_contra hnone
  push Not at hnone
  obtain ⟨w, hw, hrowOf⟩ := any_eq_true.mp htouch
  obtain ⟨rfl, rfl⟩ := of_decide_eq_true hrowOf
  have hshown := all_eq_true.mp hshows w (h.mem_foreignWrites hW hmay hnone hw)
  simp [hasks, hrow] at hshown

/-- Nobody writes a row that a reader has missed, unless the reader gives up or has drawn
its timestamp. -/
theorem Sessions.buffer_clear (h : Sessions s phase) {th : ThreadId} {op : Op} {timedOut : Bool}
    {W : TxnId} {w : BufferedWrite} (hc : s.threads.calls th = some (op, .buffer W w))
    (hcond : s.protectsAbsent (.act (.step th timedOut)) = true) {T : TxnId} (hT : T ≠ W)
    (hsnap : snapshotOf phase T = some snap) (htold : s.toldAbsent T w.tableId w.key = true) :
    (phase T).gaveUp = true ∨
      ∃ cT, s.commitTs T = some cT ∧ ∀ cW, s.commitTs W = some cW → cT < cW := by
  have hsim := h.follows.sim
  -- the writer has no timestamp yet
  have hnone := h.writing th op _ W w hc (h.serves th op _ hc)
  have hlater : ∀ {cT}, s.commitTs T = some cT →
      ∃ cT, s.commitTs T = some cT ∧ ∀ cW, s.commitTs W = some cW → cT < cW := by
    intro cT hcT
    refine ⟨cT, hcT, fun cW hcW => ?_⟩
    rw [hnone] at hcW
    cases hcW
  cases hp : phase T with
  | live t =>
    right
    have htxn : s.threads.mgr.txns T = some t := by rw [hsim.txns T, hp]; rfl
    simp only [Clients.protectsAbsent, hc] at hcond
    have hall := all_eq_true.mp hcond T (hsim.mem_range_next (by rw [hp]; simp))
    simp only [hT, decide_false, htxn, Option.isNone_some, htold, Bool.not_true, Bool.or_false,
      Bool.false_or] at hall
    obtain ⟨cT, hcT⟩ := Option.isSome_iff_exists.mp hall
    exact hlater hcT
  | aborting | aborted => exact .inl rfl
  | committing i t ts rest | committed t ts =>
    exact .inr (hlater (h.commits T t ts (by rw [hp]; rfl)))
  | _ =>
    rw [snapshotOf, hp] at hsnap
    cases hsnap

end Clear

/-! ## Steps -/

/-- A write of a row comes with `Write` or `Delete`. -/
theorem Move.touches_cases {ι : Type*} {i : ι} {s s' : MVCCStore}
    {p p' : Phase ι} (h : Move i T c s p s' p')
    (himport : ∀ T' ts cts ws rest, c ≠ .importLog T' ts cts ws rest) {t' : Transaction}
    (ht' : p'.mayCommit = some t') {tb : TableId} {k : Bytes}
    (htouch : touches t'.writeSet tb k = true) :
    (∃ t, p.mayCommit = some t ∧ touches t.writeSet tb k = true) ∨
      ∃ w, c = .buffer T w ∧ w.tableId = tb ∧ w.key = k := by
  cases h with
  | draw | log | drawImport | logImport | reject | abandon | abort => cases ht'
  | insert =>
    cases ht'
    cases htouch
  | insertImport => exact absurd rfl (himport _ _ _ _ _)
  | @write _ w t hact =>
    cases ht'
    rcases Bool.or_eq_true_iff.mp ((any_append ..).symm.trans htouch) with hold | hnew
    · exact .inl ⟨t, rfl, hold⟩
    · simp only [any_cons, any_nil, Bool.or_false, decide_eq_true_eq] at hnew
      exact .inr ⟨w, rfl, hnew⟩
  | read | scanRow | prepare =>
    cases ht'
    exact .inl ⟨_, rfl, htouch⟩
  | stay | commit | put | close => exact .inl ⟨t', ht', htouch⟩

section Steps

variable {ι : Type*} {phase : TxnId → Phase ι} {commitTs : TxnId → Option Timestamp} {i : ι}
  {W : TxnId} {st st' : MVCCStore} {p : Phase ι}

theorem gaveUp_step (hmove : Move i W c st (phase W) st' p) (h : (phase T).gaveUp = true) :
    (update phase W p T).gaveUp = true :=
  update_mono (P := fun p : Phase ι => p.gaveUp = true) (fun _ => hmove.gaveUp_mono) h

theorem Clear.step {snap : Timestamp} {tb : TableId} {k : Bytes}
    (h : Clear commitTs phase T snap tb k) (hmove : Move i W c st (phase W) st' p)
    (himport : ∀ T' ts cts ws rest, c ≠ .importLog T' ts cts ws rest)
    (hbuffer : ∀ w, c = .buffer W w → w.tableId = tb → w.key = k → T ≠ W →
      (phase T).gaveUp = true ∨
        ∃ cT, commitTs T = some cT ∧ ∀ cW, commitTs W = some cW → cT < cW) :
    Clear commitTs (update phase W p) T snap tb k := by
  intro W' tW hW' hmay htouch
  have hkeep : ((phase T).gaveUp = true ∨
        ∃ cT, commitTs T = some cT ∧ ∀ cW, commitTs W' = some cW → cT < cW) →
      (update phase W p T).gaveUp = true ∨
        ∃ cT, commitTs T = some cT ∧ ∀ cW, commitTs W' = some cW → cT < cW :=
    Or.imp_left (gaveUp_step hmove)
  have hold : ∀ t, (phase W').mayCommit = some t → touches t.writeSet tb k = true →
      (∃ cW, commitTs W' = some cW ∧ cW ≤ snap) ∨ (update phase W p T).gaveUp = true ∨
        ∃ cT, commitTs T = some cT ∧ ∀ cW, commitTs W' = some cW → cT < cW :=
    fun t ht htouch' => (h W' t hW' ht htouch').imp_right hkeep
  rcases update_cases hmay with ⟨rfl, hat⟩ | ⟨-, hmay⟩
  · rcases hmove.touches_cases himport hat htouch with ⟨t, ht, htouch'⟩ | ⟨w, hcall, htb, hk⟩
    · exact hold t ht htouch'
    · exact .inr (hkeep (hbuffer w hcall htb hk hW'.symm))
  · exact hold tW hmay htouch

end Steps

section Steps

variable {s : Clients} {phase : TxnId → Phase ThreadId} {th : ThreadId} {op : Op} {timedOut : Bool}
  {m : TxnManager} {o : Outcome} {p : Phase ThreadId} {r : Reply}

/-- What was clear before a step stays clear. -/
theorem ClearReply.step (hsessions : Sessions s phase) (hc : s.threads.calls th = some (op, c))
    (hcond : s.protectsAbsent (.act (.step th timedOut)) = true)
    (hmove : Move th T c s.threads.mgr.store (phase T) m.store p) {op' : Op}
    {R : TxnId} (h : ClearReply s.commitTs phase op' r R)
    (htold : ∀ tb k, op'.asks tb k = true → op'.rowOf r k = none → s.toldAbsent R tb k = true) :
    ClearReply s.commitTs (update phase T p) op' r R := by
  obtain ⟨snap, hsnap, hclear⟩ := h
  refine ⟨snap, snapshotOf_step hmove hsnap, ?_⟩
  intro tb k hasks hrow
  refine (hclear tb k hasks hrow).step hmove (hsessions.not_import hc).2 ?_
  rintro w rfl rfl rfl hne
  exact hsessions.buffer_clear hc hcond hne hsnap (htold _ _ hasks hrow)

theorem toldAbsent_of_answer {a : Answer} (ha : a ∈ answers T s.threads.history) {tb : TableId}
    {k : Bytes} (hasks : a.op.asks tb k = true) (hrow : a.op.rowOf a.reply k = none) :
    s.toldAbsent T tb k = true := by
  refine Bool.or_eq_true_iff.mpr (.inl (any_eq_true.mpr ⟨a, ha, ?_⟩))
  rw [Answer.row, hasks, hrow]
  rfl

theorem Sessions.toldAbsent_of_call (h : Sessions s phase) (hc : s.threads.calls th = some (op, c))
    (hread : op.isRead = true) (hT : op.txnId = some T) (hr : c.answer = some r)
    {tb : TableId} {k : Bytes} (hasks : op.asks tb k = true) (hrow : op.rowOf r k = none) :
    s.toldAbsent T tb k = true := by
  refine Bool.or_eq_true_iff.mpr (.inr (any_eq_true.mpr ⟨_, h.called th op c hc, ?_⟩))
  simp [hc, hT, hread, hasks, hr, hrow]

section

variable (h : Protected s phase) (hc : s.threads.calls th = some (op, c))
include h hc

/-- A step of a read goes to the store at the snapshot, and what it misses is clear. -/
theorem Protected.more (hcond : s.protectsAbsent (.act (.step th timedOut)) = true) {c' : Call}
    (hstep : ReadStep s.threads.mgr op c (.more c')) (hr : c'.answer = some r)
    (hread : op.isRead = true) (hT : op.txnId = some T) : ClearReply s.commitTs phase op r T := by
  cases hstep with
  | toGet | toScan => cases hr
  | @found T' tb k v ts vts hg =>
    cases hr
    cases hT
    refine ⟨ts, h.going th _ _ T ts hc rfl, fun tb' k' hasks hrow => ?_⟩
    cases hrow
  | @scanned T' range ts ws =>
    cases hr
    cases hT
    simp only [Clients.protectsAbsent, hc] at hcond
    exact ⟨ts, h.going th _ _ T ts hc rfl,
      fun tb' k' hasks hrow => h.sessions.clear_of_shows hcond hasks hrow⟩
  | goOn hc0 hc' =>
    rw [hr] at hc'
    cases hc'
    exact h.reading th op c r T hc hread hc0 hT

theorem Protected.done (hcond : s.protectsAbsent (.act (.step th timedOut)) = true)
    (hstep : ReadStep s.threads.mgr op c (.done r)) (hr : r.isAnswer = true)
    (hread : op.isRead = true) (hT : op.txnId = some T) : ClearReply s.commitTs phase op r T := by
  cases hstep with
  | refuse he =>
    rw [hr] at he
    cases he
  | @own T' tb k t bw ht hb =>
    cases hT
    simp only [Clients.protectsAbsent, hc, ht, hb] at hcond
    have hp := h.sessions.follows.sim.live ht
    exact ⟨t.snapshotTs, by rw [snapshotOf, hp]; rfl,
      fun tb' k' hasks hrow => h.sessions.clear_of_shows hcond hasks hrow⟩
  | @missing T' tb k ts hg =>
    cases hT
    simp only [Clients.protectsAbsent, hc, hg] at hcond
    exact ⟨ts, h.going th _ _ T ts hc rfl,
      fun tb' k' hasks hrow => h.sessions.clear_of_shows hcond hasks hrow⟩
  | finish hc0 => exact h.reading th op c r T hc hread hc0 hT

theorem Protected.step (hs : c.step s.threads.mgr timedOut = some (m, o))
    (hcond : s.protectsAbsent (.act (.step th timedOut)) = true) :
    ∃ phase', Protected { s with threads := s.threads.after th op m o } phase' := by
  have hserves := h.sessions.serves th op c hc
  obtain ⟨T, p, hmove, hsessions⟩ := h.sessions.step hc hs s.snapshot
  -- a read writes nothing
  have hown : ∀ {r : Reply} {R : TxnId}, op.isRead = true → ClearReply s.commitTs phase op r R →
      ClearReply s.commitTs (update phase T p) op r R := by
    rintro r R hread ⟨snap, hsnap, hclear⟩
    refine ⟨snap, snapshotOf_step hmove hsnap, fun tb k hasks hrow => ?_⟩
    refine (hclear tb k hasks hrow).step hmove (h.sessions.not_import hc).2 ?_
    exact fun w hw => absurd hw (hserves.not_buffer hread T w)
  refine ⟨update phase T p, hsessions, ?_, ?_, ?_⟩
  · intro j op' c' R ts hj hat
    rcases Threads.calls_after_cases hj with ⟨-, rfl, rfl⟩ | ⟨-, hj⟩
    · have hread := (hserves.next hs rfl).isRead_of_readsAt hat
      obtain ⟨t, ht, rfl⟩ := (hserves.readStep hread hs).snapshotTs_of_readsAt hat
      refine snapshotOf_step hmove ?_
      rw [snapshotOf, h.sessions.follows.sim.live ht]
      rfl
    · exact snapshotOf_step hmove (h.going j op' c' R ts hj hat)
  · intro j op' c' r R hj hread hr hR
    rcases Threads.calls_after_cases hj with ⟨-, rfl, rfl⟩ | ⟨-, hj⟩
    · exact hown hread (h.more hc hcond (hserves.readStep hread hs) hr hread hR)
    · exact ClearReply.step h.sessions hc hcond hmove (h.reading j op' c' r R hj hread hr hR)
        fun tb k => h.sessions.toldAbsent_of_call hj hread hR hr
  · intro R a ha
    have hold : a ∈ answers R s.threads.history →
        ClearReply s.commitTs (update phase T p) a.op a.reply R := fun ha =>
      ClearReply.step h.sessions hc hcond hmove (h.answered R a ha)
        fun tb k => toldAbsent_of_answer ha
    rcases answers_after_cases ha with hearlier | ⟨r, rfl, hread, hR, hans, rfl⟩
    · exact hold hearlier
    · exact hown hread (h.done hc hcond (hserves.readStep hread hs) hans hread hR)

end

/-! ## Runs -/

theorem Protected.enter (h : Protected s phase) {op : Op} (hth : s.threads.calls th = none)
    (hpermits : s.permits (.start th op) = true) (snapshot : ThreadId → Option Timestamp) :
    Protected { s with threads := s.threads.enter th op, snapshot := snapshot } phase := by
  -- a call that starts has been nowhere yet
  have hcases : ∀ {j op' c'}, (s.threads.enter th op).calls j = some (op', c') →
      (c'.readsAt = none ∧ c'.answer = none) ∨ s.threads.calls j = some (op', c') := by
    intro j op' c' hj
    rcases Threads.calls_enter_cases hj with ⟨-, -, rfl⟩ | ⟨-, hj⟩
    · exact .inl (by cases op <;> exact ⟨rfl, rfl⟩)
    · exact .inr hj
  refine ⟨h.sessions.enter hth hpermits snapshot, ?_, ?_, h.answered⟩
  · intro j op' c' R ts hj hat
    rcases hcases hj with ⟨hnone, -⟩ | hj
    · rw [hnone] at hat
      cases hat
    · exact h.going j op' c' R ts hj hat
  · intro j op' c' r R hj hread hr hR
    rcases hcases hj with ⟨-, hnone⟩ | hj
    · rw [hnone] at hr
      cases hr
    · exact h.reading j op' c' r R hj hread hr hR

/-- A timestamp that is drawn is above all others. -/
theorem Clear.draw (hsessions : Sessions s phase) {W T : TxnId} (hnone : s.commitTs W = none)
    {snap : Timestamp} {tb : TableId} {k : Bytes} (h : Clear s.commitTs phase T snap tb k) :
    Clear (update s.commitTs W (some s.clock)) phase T snap tb k := by
  -- a timestamp that was there stays
  have hkeep : ∀ {T' cT}, s.commitTs T' = some cT →
      update s.commitTs W (some s.clock) T' = some cT :=
    fun hT' => update_keeps hT' (by rw [hnone]; nofun)
  intro W' tW hW' hmay htouch
  rcases h W' tW hW' hmay htouch with ⟨cW, hcW, hle⟩ | hgave | ⟨cT, hcT, hlater⟩
  · exact .inl ⟨cW, hkeep hcW, hle⟩
  · exact .inr (.inl hgave)
  · refine .inr (.inr ⟨cT, hkeep hcT, fun cW hcW => ?_⟩)
    rcases update_eq_cases hcW with ⟨rfl, hcW'⟩ | ⟨-, hcW⟩
    · cases hcW'
      exact hsessions.drawn_lt T cT hcT
    · exact hlater cW hcW

theorem Protected.draw (h : Protected s phase) (hclock : s.clock < s.clock + 1) {T : TxnId}
    (hdrives : s.threads.drives th T = true) (hidle : s.threads.calls th = none)
    (hnone : s.commitTs T = none) :
    Protected { s with
      clock := s.clock + 1
      commitTs := update s.commitTs T (some s.clock) } phase := by
  have hreply : ∀ {op r R}, ClearReply s.commitTs phase op r R →
      ClearReply (update s.commitTs T (some s.clock)) phase op r R := by
    rintro op r R ⟨snap, hsnap, hclear⟩
    exact ⟨snap, hsnap, fun tb k hasks hrow => (hclear tb k hasks hrow).draw h.sessions hnone⟩
  exact ⟨h.sessions.draw hclock hdrives hidle hnone, h.going,
    fun j op c r R hj hread hr hR => hreply (h.reading j op c r R hj hread hr hR),
    fun R a ha => hreply (h.answered R a ha)⟩

theorem run_protected {acts : List ClientAction}
    (hC : clients.Meets (fun s a => s.protectsAbsent a = true) clients.init acts)
    (h : clients.run acts = some s) : ∃ phase, Protected s phase := by
  refine Machine.inv_run_of_meets (I := fun s => ∃ phase, Protected s phase)
    ⟨_, Protected.init⟩ ?_ hC h
  rintro s a s' ⟨phase, hprot⟩ hcond hstep
  rcases Clients.step_cases hstep with
    ⟨th, rfl, hclock, rfl⟩ | ⟨th, T, rfl, hclock, hdrives, hidle, hnone, rfl⟩ |
    ⟨th, op, rfl, hth, hpermits, rfl⟩ | ⟨th, timedOut, op, c, m, o, rfl, hc, hs, rfl⟩
  · exact ⟨phase, hprot.sessions.drawSnapshot hclock _, hprot.going, hprot.reading, hprot.answered⟩
  · exact ⟨phase, hprot.draw hclock hdrives hidle hnone⟩
  · exact ⟨phase, hprot.enter hth hpermits _⟩
  · exact hprot.step hc hs hcond

/-- **Rows that were missed are not committed in between**: if a committed transaction was
told that a row is absent, no other transaction has committed a write of it with a
timestamp between its snapshot and its commit. -/
theorem absent_rows_protected {acts : List ClientAction}
    (hC : clients.Meets (fun s a => s.protectsAbsent a = true) clients.init acts)
    (h : clients.run acts = some s) {T : TxnId} {c : Timestamp} (hT : (T, c) ∈ s.threads.committed)
    {t : Transaction} (ht : s.threads.archive T = some t) :
    ∀ a ∈ answers T s.threads.history, ∀ tb k, a.op.asks tb k = true → a.row k = none →
      ∀ W ∈ s.threads.committed, W.1 ≠ T → s.threads.wrote W.1 tb k ≠ none →
        ¬ (t.snapshotTs < W.2 ∧ W.2 < c) := by
  obtain ⟨phase, hprot⟩ := run_protected hC h
  have hsessions := hprot.sessions
  obtain ⟨t', hcommit⟩ := hsessions.mem_committed.mp hT
  rintro a ha tb k hasks hrow ⟨W, cW⟩ hW hne hwrote ⟨habove, hbelow⟩
  obtain ⟨tW, hcommitW⟩ := hsessions.mem_committed.mp hW
  have hcW := hsessions.commits W tW cW hcommitW
  rw [hsessions.wrote_of_commitOf hcommitW] at hwrote
  obtain ⟨snap, hsnap, hclear⟩ := hprot.answered T a ha
  rw [snapshotOf, ← hsessions.follows.archive, ht] at hsnap
  cases hsnap
  rcases hclear tb k hasks hrow W tW hne (Phase.mayCommit_of_commitOf hcommitW)
    (touches_of_lastWrite hwrote) with ⟨cW', hcW', hle⟩ | hgave | ⟨cT, hcT, hlater⟩
  · rw [hcW] at hcW'
    cases hcW'
    exact absurd habove (UInt64.not_lt.mpr hle)
  · -- a transaction that has committed did not give up
    cases hp : phase T with
    | aborting | aborted =>
      rw [hp] at hcommit
      cases hcommit
    | _ =>
      rw [hp] at hgave
      cases hgave
  · have hcT' := hsessions.commits T t' c hcommit
    rw [hcT] at hcT'
    cases hcT'
    exact UInt64.lt_asymm hbelow (hlater cW hcW)

end Steps

/-- A transaction misses a row, draws its timestamp and is prepared; then another one writes
the row, and both commit. -/
def missesThenCommits : List ClientAction :=
  [.drawSnapshot 0] ++ clientCall 0 (.begin 1) 3 ++ clientCall 0 (.read 1 7 [1]) 2 ++
    [.drawCommit 0 1] ++ clientCall 0 (.prepare 1 2) 1 ++
    [.drawSnapshot 1] ++ clientCall 1 (.begin 3) 3 ++ clientCall 1 (.write 2 7 [1] [5]) 2 ++
    [.drawCommit 1 2] ++ clientCall 1 (.prepare 2 4) 1 ++ clientCall 1 (.commit 2 4) 5 ++
    clientCall 0 (.commit 1 2) 4

theorem absent_rows_protected_missesThenCommits :
    ∃ s a, clients.run missesThenCommits = some s ∧ a ∈ answers 1 s.threads.history ∧
      a.op = .read 1 7 [1] ∧ a.row [1] = none ∧ (1, 2) ∈ s.threads.committed ∧
      (2, 4) ∈ s.threads.committed ∧ s.threads.wrote 2 7 [1] ≠ none ∧
      ∃ t, s.threads.archive 1 = some t ∧ t.snapshotTs = 1 ∧
        ¬ (t.snapshotTs < 4 ∧ (4 : Timestamp) < 2) := by
  obtain ⟨s, hs, t, ht, hsnap, hanswer, hT, hW, hwrote⟩ : ∃ s,
      clients.run missesThenCommits = some s ∧ ∃ t, s.threads.archive 1 = some t ∧
      t.snapshotTs = 1 ∧ ⟨[], .read 1 7 [1], .of .notFound⟩ ∈ answers 1 s.threads.history ∧
      (1, 2) ∈ s.threads.committed ∧ (2, 4) ∈ s.threads.committed ∧
      s.threads.wrote 2 7 [1] ≠ none := by
    decide +kernel
  have hclear := absent_rows_protected (by decide +kernel) hs hT ht _ hanswer 7 [1] rfl rfl (2, 4) hW
    (by decide) hwrote
  exact ⟨s, _, hs, hanswer, rfl, rfl, hT, hW, hwrote, t, ht, hsnap, hclear⟩

/-- A transaction misses a row; another one commits it with timestamp 3; then the reader draws
timestamp 4, is prepared and commits. -/
def commitsBetween (reads : List ClientAction) : List ClientAction :=
  [.drawSnapshot 0] ++ clientCall 0 (.begin 1) 3 ++ reads ++
    [.drawSnapshot 1] ++ clientCall 1 (.begin 2) 3 ++ clientCall 1 (.write 2 7 [1] [5]) 2 ++
    [.drawCommit 1 2] ++ clientCall 1 (.prepare 2 3) 1 ++ clientCall 1 (.commit 2 3) 5 ++
    [.drawCommit 0 1] ++ clientCall 0 (.prepare 1 4) 1 ++ clientCall 0 (.commit 1 4) 4

/-- **A row that was missed can be committed in between**, whether it was read or scanned:
validation does not look at it. -/
theorem phantom_commits :
    (∃ s, clients.run (commitsBetween (clientCall 0 (.read 1 7 [1]) 2)) = some s ∧
      answers 1 s.threads.history = [⟨[], .read 1 7 [1], .of .notFound⟩] ∧
      (s.threads.archive 1).map Transaction.snapshotTs = some 1 ∧
      (1, 4) ∈ s.threads.committed ∧ (2, 3) ∈ s.threads.committed ∧
      s.threads.wrote 2 7 [1] = some [5]) ∧
    ∃ s, clients.run (commitsBetween (clientCall 0 (.scan 1 ⟨7, [], [], true⟩) 3)) = some s ∧
      answers 1 s.threads.history = [⟨[], .scan 1 ⟨7, [], [], true⟩, ⟨.ok, none, [], []⟩⟩] ∧
      (s.threads.archive 1).map Transaction.snapshotTs = some 1 ∧
      (1, 4) ∈ s.threads.committed ∧ (2, 3) ∈ s.threads.committed ∧
      s.threads.wrote 2 7 [1] = some [5] := by decide +kernel

end TransDb.Txn
