import TransDb.Raft.Following
import TransDb.Shard.Sequenced

/-!
# The stages of a `Prepare`

What is known of the local transaction and of the log while the handler of a `Prepare`
goes on: nothing is in the log until the batch is proposed, the local transaction is as the
batch says until the batch is applied, and from then on the replica agrees with the log.

* `Pc.disturbs` — the handler is about to abort, register or forget a local transaction.
* `Steps.keeps` — what a handler that does not disturb a transaction leaves alone.
* `Stage` — what is known at each place of a `Prepare`; `Stage.own` **leads from one place to
  the next**, `Stage.other`, `Stage.append` and `Stage.move` keep it.
-/

namespace TransDb.Shard

open Function Storage Txn Raft

/-! ## What a handler leaves alone -/

/-- The handler is about to abort, register or forget a local transaction. -/
def Pc.disturbs : Pc → Bool
  | .call (.abort _ _) _ => true
  | .register _ _ => true
  | .forget _ => true
  | _ => false

/-- The handler of an `Abort` is aborting the local transaction itself. -/
def Pc.abortsLocal : Pc → Bool
  | .call _ .aborted => true
  | .forget .aborted => true
  | _ => false

/-- Whose handler it can be that disturbs. -/
theorem Pc.Of.disturbs_cases {rpc : Rpc} {pc : Pc} (hof : pc.Of rpc) (hd : pc.disturbs = true) :
    rpc.isBegin rpc.raftTxnId = true ∨ (∃ l e, pc = .call (.abort l e) .answer) ∨
      rpc.isPrepare rpc.raftTxnId = true ∨
      rpc.isAbort rpc.raftTxnId = true ∧ pc.abortsLocal = true := by
  cases pc with
  | call c next =>
    cases c with
    | abort l e =>
      obtain ⟨op, hserves, hop⟩ := hof
      cases next with
      | begun ts =>
        obtain ⟨-, rfl⟩ := hop
        cases hserves.1
      | answer => exact .inr (.inl ⟨l, e, rfl⟩)
      | prepared ts p => exact .inr (.inr (.inl (Rpc.isPrepare_iff.mpr ⟨ts, hop.1⟩)))
      | abandoned => exact .inr (.inr (.inl (Rpc.isPrepare_iff.mpr hop.1)))
      | aborted => exact .inr (.inr (.inr ⟨Rpc.isAbort_iff.mpr hop.1, rfl⟩))
    | _ => cases hd
  | register ts l => exact .inl (Rpc.isBegin_iff.mpr ⟨ts, hof⟩)
  | forget why =>
    cases why with
    | prepareFailed => exact .inr (.inr (.inl (Rpc.isPrepare_iff.mpr hof)))
    | aborted => exact .inr (.inr (.inr ⟨Rpc.isAbort_iff.mpr hof, rfl⟩))
  | _ => cases hd

/-- Handlers never commit. -/
theorem AfterCall.Of.not_commit {next : AfterCall} {rpc : Rpc} {op : Op} (h : next.Of rpc op)
    (l : TxnId) (ts : Timestamp) : op ≠ .commit l ts := by
  rintro rfl
  cases next with
  | begun => cases h.2
  | answer =>
    obtain ⟨e, l', -, -, heq⟩ := h
    cases e <;> cases heq
  | prepared => cases h.2
  | abandoned | aborted =>
    obtain ⟨-, l', heq⟩ := h
    cases heq

variable {s : ShardService} {x : Handler} {pc : Pc} {f : Effect} {T : RaftTxnId} {l : TxnId}
  {b : PrepareBatch} {i : ℕ} {ts : Timestamp} {calls : Caller → Option Call} {k : Caller}
  {phase : TxnId → Phase Caller}

theorem Pc.Of.spares {rpc : Rpc} {R : Replica} {c : Call} {next : AfterCall}
    (hof : (Pc.call c next).Of rpc)
    (hheld : ∀ l, c.target = some l → R.begunFor l = some rpc.raftTxnId)
    (hq : rpc.raftTxnId = T → (Pc.call c next).disturbs = false) : Spares R c T := by
  by_cases hT : rpc.raftTxnId = T
  · intro l _
    constructor
    · rintro e rfl
      cases hq hT
    · rintro ts rfl
      obtain ⟨op, hserves, hop⟩ := hof
      exact hop.not_commit l ts hserves
  · exact Spares.of_other hheld hT

section

variable (h : Steps s x pc f) (hof : pc.Of x.rpc)
    (hheld : ∀ l, pc.held = some l → (s.replicas x.replica).begunFor l = some x.rpc.raftTxnId)
include h hof hheld

/-- What is kept by calls that spare a transaction and by changes of the map for others is
kept by a handler that does not disturb the transaction. -/
theorem Steps.keeps {P : Replica → Prop} (hq : x.rpc.raftTxnId = T → pc.disturbs = false)
    (hP : P (s.replicas x.replica)) (hcall : ∀ {c timedOut R' out}, pc.inCall = some c →
      (s.replicas x.replica).call x.rpc.raftTxnId c timedOut = some (R', out) →
      Spares (s.replicas x.replica) c T → P R') (hsm : ∀ {sm : RaftStateMachine},
      sm.txnIdMap T = (s.replicas x.replica).sm.txnIdMap T →
      P { s.replicas x.replica with sm := sm }) : P f.replica := by
  have hne : pc.disturbs = true → T ≠ x.rpc.raftTxnId := by
    rintro hd rfl
    rw [hq rfl] at hd
    cases hd
  cases h with
  | more _ hs | returned _ hs => exact hcall rfl hs (hof.spares hheld hq)
  | register | forgotten => exact hsm (update_of_ne (hne rfl) ..)
  | result | badResult => exact hsm rfl
  | _ => exact hP

theorem Steps.standing (hq : x.rpc.raftTxnId = T → pc.disturbs = false)
    (hok : ReplicaOk (s.replicas x.replica) calls phase) (hcalls : calls k = pc.inCall)
    (hst : Standing s.log (s.replicas x.replica) T) : Standing s.log f.replica T :=
  h.keeps hof hheld hq hst (fun hc hs hspares => hst.call hok (hcalls.trans hc) hs hspares)
    (fun hsm => Agree.setSm hst hsm)

theorem Steps.tracked (hq : x.rpc.raftTxnId = b.raftTxnId → pc.disturbs = false)
    (hok : ReplicaOk (s.replicas x.replica) calls phase) (hcalls : calls k = pc.inCall)
    (ht : Tracked s.log (s.replicas x.replica) l b i) : Tracked s.log f.replica l b i :=
  h.keeps hof hheld hq ht (fun hc hs hspares => ht.call hok (hcalls.trans hc) hs hspares)
    (fun hsm => ht.setSm hsm)

end

section

variable (h : Steps s x pc f)
include h

/-- Handlers do not apply entries. -/
theorem Steps.frame :
    f.replica.lastApplied = (s.replicas x.replica).lastApplied ∧
      f.replica.puts = (s.replicas x.replica).puts := by
  cases h with
  | more _ hs | returned _ hs =>
    obtain ⟨m, -, rfl⟩ := Replica.call_eq hs
    exact ⟨rfl, rfl⟩
  | _ => exact ⟨rfl, rfl⟩

theorem Steps.ready (hof : pc.Of x.rpc)
    (hheld : ∀ l, pc.held = some l → (s.replicas x.replica).begunFor l = some x.rpc.raftTxnId)
    (hq : x.rpc.raftTxnId = T → pc.disturbs = false)
    (hok : ReplicaOk (s.replicas x.replica) calls phase) (hcalls : calls k = pc.inCall)
    {cmd : Command} (hr : Ready (s.replicas x.replica) T l b cmd) : Ready f.replica T l b cmd :=
  h.keeps hof hheld hq hr (fun hc hs hspares => hr.call hok (hcalls.trans hc) hs hspares)
    (fun hsm => hr.setSm hsm)

theorem Steps.onLog (hof : pc.Of x.rpc) (hon : OnLog s.log (s.replicas x.replica)) :
    OnLog s.log f.replica := by
  cases h with
  | more _ hs | returned _ hs =>
    obtain ⟨op, hserves, hop⟩ := hof
    exact hon.call hs hserves hop.not_commit
  | register hfree | result hfree | forgotten hfree => exact hon.setSm hfree _
  | badResult =>
    exact ⟨hon.bound, hon.runs, hon.quiet, hon.recorded.store, hon.recorded.later,
      hon.recorded.quiet⟩
  | _ => exact hon

/-- Only a `BEGIN` puts something new into the map. -/
theorem Steps.mapOk (hq : x.rpc.raftTxnId = T → ∀ ts l', pc ≠ .register ts l')
    (hmap : MapOk (s.replicas x.replica) T l) : MapOk f.replica T l := by
  cases h with
  | more _ hs | returned _ hs =>
    obtain ⟨m, -, rfl⟩ := Replica.call_eq hs
    exact hmap
  | @register ts l' =>
    have hT : T ≠ x.rpc.raftTxnId := fun hT => hq hT.symm ts l' rfl
    exact hmap.imp (update_of_ne hT ..).trans (update_of_ne hT ..).trans
  | forgotten =>
    by_cases hT : T = x.rpc.raftTxnId
    · subst hT
      exact .inl (update_self ..)
    · exact hmap.imp (update_of_ne hT ..).trans (update_of_ne hT ..).trans
  | _ => exact hmap

theorem Steps.preparedAt (hok : ReplicaOk (s.replicas x.replica) calls phase)
    (hcalls : calls k = pc.inCall) (hl : (s.replicas x.replica).begunFor l = some T)
    (hp : PreparedAt (s.replicas x.replica) l ts) : PreparedAt f.replica l ts := by
  cases h with
  | more _ hs | returned _ hs => exact hp.call hok hcalls hs hl
  | _ => exact hp

end

/-! ## Stages -/

/-- The log has no batch of the transaction. -/
def NoBatch (log : List RaftLogEntry) (T : RaftTxnId) : Prop :=
  ∀ i b, commandAt log i = .prepareBatch b → b.raftTxnId ≠ T

/-- Entry `i` is the batch that a `Prepare` has proposed. -/
structure BatchAt (log : List RaftLogEntry) (T : RaftTxnId) (c : Timestamp) (i : ℕ)
    (b : PrepareBatch) : Prop where
  cmd : commandAt log i = .prepareBatch b
  txn : b.raftTxnId = T
  ts : b.commitTs = c

/-- The batch has been applied, and the replica agrees with the log on the transaction. -/
def Promised (log : List RaftLogEntry) (R : Replica) (T : RaftTxnId) (c : Timestamp) : Prop :=
  ∃ i b, BatchAt log T c i b ∧ i < R.lastApplied ∧ Standing log R T

/-- What is known at a place of the `Prepare` of a transaction on replica `r`. -/
def Stage (log : List RaftLogEntry) (R : Replica) (r : ReplicaId) (T : RaftTxnId)
    (c : Timestamp) : Pc → Prop
  | .prepareFind _ => NoBatch log T
  | .call k (.prepared ts p) =>
    NoBatch log T ∧ MapOk R T p.localTxnId ∧ (k = .prepare p.localTxnId ts ∨ k.fails = true)
  | .getTxn ts p => NoBatch log T ∧ MapOk R T p.localTxnId ∧ PreparedAt R p.localTxnId ts
  | .propose _ payload (.prepareBatch p) =>
    NoBatch log T ∧ ∃ ws, Fits ws ∧ payload = packPrepareBatchPayload T p.snapshotTs c ws ∧
      Ready R T p.localTxnId ⟨T, p.snapshotTs, c, ws⟩ (commandAt log R.lastApplied)
  | .wait L ix (.prepareBatch p) =>
    L = r ∧ ∃ i b, ix = i + 1 ∧ BatchAt log T c i b ∧ Tracked log R p.localTxnId b i
  | .takeResult => Promised log R T c
  | .markPrepared => Promised log R T c
  | _ => True

variable {log log' : List RaftLogEntry} {R R' : Replica} {r : ReplicaId} {c : Timestamp}
  {e : RaftLogEntry}

theorem NoBatch.append (h : NoBatch log T)
    (he : ∀ b, e.command = .prepareBatch b → b.raftTxnId ≠ T) : NoBatch (log ++ [e]) T := by
  intro i b hcmd
  rcases commandAt_append_cases hcmd nofun with ⟨hold, -⟩ | ⟨-, hnew⟩
  · exact h i b hold
  · exact he b hnew

theorem BatchAt.lt_length (h : BatchAt log T c i b) : i < log.length := by
  refine lt_of_commandAt ?_
  rw [h.cmd]
  simp

theorem BatchAt.append (h : BatchAt log T c i b) (e : RaftLogEntry) :
    BatchAt (log ++ [e]) T c i b :=
  ⟨(commandAt_append h.lt_length).trans h.cmd, h.txn, h.ts⟩

theorem Promised.append (h : Promised log R T c) (hon : OnLog log R) (e : RaftLogEntry) :
    Promised (log ++ [e]) R T c := by
  obtain ⟨i, b, hb, hlt, hst⟩ := h
  exact ⟨i, b, hb.append e, hlt, hst.append hon e⟩

/-- A stage lasts as long as what it says of the log and of the replica. -/
theorem Stage.mono (h : Stage log R r T c pc) (hno : NoBatch log T → NoBatch log' T)
    (hmap : ∀ l, NoBatch log T → MapOk R T l → MapOk R' T l)
    (hprepared : ∀ l ts, pc.held = some l → PreparedAt R l ts → PreparedAt R' l ts)
    (hready : ∀ l b, NoBatch log T → Ready R T l b (commandAt log R.lastApplied) →
      Ready R' T l b (commandAt log' R'.lastApplied))
    (htracked : ∀ l i b, BatchAt log T c i b → Tracked log R l b i →
      BatchAt log' T c i b ∧ Tracked log' R' l b i)
    (hpromised : Promised log R T c → Promised log' R' T c) : Stage log' R' r T c pc := by
  cases pc with
  | prepareFind => exact hno h
  | call k next =>
    cases next with
    | prepared ts p => exact ⟨hno h.1, hmap _ h.1 h.2.1, h.2.2⟩
    | _ => trivial
  | getTxn ts p => exact ⟨hno h.1, hmap _ h.1 h.2.1, hprepared _ _ rfl h.2.2⟩
  | propose type payload next =>
    cases next with
    | prepareBatch p =>
      obtain ⟨hnone, ws, hfits, hpay, hr⟩ := h
      exact ⟨hno hnone, ws, hfits, hpay, hready _ _ hnone hr⟩
    | _ => trivial
  | wait L ix next =>
    cases next with
    | prepareBatch p =>
      obtain ⟨hL, i, b, hix, hb, ht⟩ := h
      exact ⟨hL, i, b, hix, htracked _ i b hb ht⟩
    | _ => trivial
  | takeResult | markPrepared => exact hpromised h
  | _ => trivial

/-- The log grows by an entry of somebody else. -/
theorem Stage.append (h : Stage log R r T c pc) (hon : OnLog log R)
    (he : ∀ b, e.command = .prepareBatch b → b.raftTxnId ≠ T) :
    Stage (log ++ [e]) R r T c pc :=
  h.mono (fun hno => hno.append he) (fun _ _ => id) (fun _ _ _ => id)
    (fun _ _ _ hr => hr.append hon e) (fun _ _ _ hb ht => ⟨hb.append e, ht.append hon e⟩)
    fun hp => hp.append hon e

theorem Promised.move (h : Promised log R T c) (hon : OnLog log R) (hok : ReplicaOk R calls phase)
    (hm : RaftMove log R R') : Promised log R' T c := by
  obtain ⟨i, b, hb, hlt, hst⟩ := h
  refine ⟨i, b, hb, ?_, hst.move hon hok hm⟩
  rcases hm.lastApplied hon with hlast | hlast <;> omega

/-- The Raft thread goes on. -/
theorem Stage.move (h : Stage log R r T c pc) (hon : OnLog log R) (hok : ReplicaOk R calls phase)
    (hone : OneBatch log) (hheld : ∀ l, pc.held = some l → R.begunFor l = some T)
    (hm : RaftMove log R R') : Stage log R' r T c pc :=
  h.mono id (fun _ hno hmap => hmap.move hon (hno _) hm)
    (fun _ _ hl hp => hp.move hok (hheld _ hl) hm) (fun _ _ hno hr => hr.move hon hok (hno _) hm)
    (fun _ _ _ hb ht => ⟨hb, ht.move hon hok hone hb.cmd hm⟩) fun hp => hp.move hon hok hm

theorem Promised.other (h : Promised s.log (s.replicas x.replica) T c) (hs : Steps s x x.pc f)
    (hof : x.pc.Of x.rpc)
    (hheld : ∀ l, x.pc.held = some l →
      (s.replicas x.replica).begunFor l = some x.rpc.raftTxnId)
    (hq : x.rpc.raftTxnId = T → x.pc.disturbs = false)
    (hok : ReplicaOk (s.replicas x.replica) calls phase) (hcalls : calls k = x.pc.inCall) :
    Promised s.log f.replica T c := by
  obtain ⟨i, b, hb, hlt, hst⟩ := h
  exact ⟨i, b, hb, hs.frame.1 ▸ hlt, hs.standing hof hheld hq hok hcalls hst⟩

/-- Another handler goes on, and does not disturb the transaction. -/
theorem Stage.other {pc : Pc} {r : ReplicaId} (h : Stage s.log (s.replicas x.replica) r T c pc)
    (hs : Steps s x x.pc f) (hof : x.pc.Of x.rpc)
    (hheld : ∀ l, x.pc.held = some l →
      (s.replicas x.replica).begunFor l = some x.rpc.raftTxnId)
    (hq : x.rpc.raftTxnId = T → x.pc.disturbs = false)
    (hok : ReplicaOk (s.replicas x.replica) calls phase) (hcalls : calls k = x.pc.inCall)
    (hheld' : ∀ l, pc.held = some l → (s.replicas x.replica).begunFor l = some T) :
    Stage s.log f.replica r T c pc := by
  have hregister : x.rpc.raftTxnId = T → ∀ ts l', x.pc ≠ .register ts l' := by
    intro hT ts l' hpc
    have hd := hq hT
    rw [hpc] at hd
    cases hd
  refine h.mono id (fun _ _ => hs.mapOk hregister)
    (fun _ _ hl => hs.preparedAt hok hcalls (hheld' _ hl)) ?_ ?_
    fun hp => hp.other hs hof hheld hq hok hcalls
  · intro l b _ hr
    rw [hs.frame.1]
    exact hs.ready hof hheld hq hok hcalls hr
  · intro l i b hb ht
    exact ⟨hb, hs.tracked hof hheld (by rw [hb.txn]; exact hq) hok hcalls ht⟩

/-- What is packed is what the batch will say. -/
theorem Ready.of_packed {log : List RaftLogEntry} {R : Replica} {p : PendingTxn} {t : Transaction}
    (hno : NoBatch log T) (hmap : MapOk R T p.localTxnId) (hp : PreparedAt R p.localTxnId c)
    (ht : R.mgr.txns p.localTxnId = some t) (hon : OnLog log R) :
    Ready R T p.localTxnId ⟨T, p.snapshotTs, c, t.writeSet⟩ (commandAt log R.lastApplied) := by
  obtain ⟨hstate, hts⟩ := hp t ht
  -- nobody can be importing the transaction
  have hnot : ∀ a, R.applying = some a → ¬ a.imports T := by
    intro a ha himp
    obtain ⟨-, hruns⟩ := hon.runs a ha
    cases a with
    | run T' k next =>
      cases next with
      | imported =>
        obtain ⟨b, hcmd, hb, -⟩ := hruns
        exact hno _ b hcmd (hb.trans himp)
      | _ => exact himp
    | setImported T' l' =>
      obtain ⟨b, hcmd, hb⟩ := hruns
      exact hno _ b hcmd (hb.trans himp)
    | _ => exact himp
  refine ⟨hmap.imp_right fun hl => ⟨hl, .inl ⟨t, ht, hstate, rfl, hts⟩⟩, ?_, ?_⟩
  · exact fun a ha himp => absurd himp (hnot a ha)
  · exact fun l' b' ha _ => absurd rfl (hnot _ ha)

/-- **The handler of a `Prepare` goes from one stage to the next.** -/
theorem Stage.own (h : Stage s.log (s.replicas x.replica) x.replica T c x.pc)
    (hrpc : x.rpc = .prepare T c) (hs : Steps s x x.pc f) (hof : x.pc.Of x.rpc)
    (hon : OnLog s.log (s.replicas x.replica)) (hleader : s.leader = some x.replica)
    (hmapped : NoBatch s.log T → ∀ p, s.pendingTxns T = some p →
      MapOk (s.replicas x.replica) T p.localTxnId)
    (hfits : ∀ ts p t, x.pc = .getTxn ts p →
      (s.replicas x.replica).mgr.txns p.localTxnId = some t → Fits t.writeSet)
    {pc' : Pc} (hn : f.next = .goto pc') : Stage f.log f.replica x.replica T c pc' := by
  obtain ⟨rpc, r, pc⟩ := x
  cases (show rpc = _ from hrpc)
  have hof : pc.Of (.prepare T c) := hof
  cases hs with
  | @more k k' next R' timedOut hcall =>
    cases hn
    cases next with
    | prepared ts p =>
      obtain ⟨hno, hmap, hk⟩ := h
      obtain ⟨m, hstep, rfl⟩ := Replica.call_eq hcall
      refine ⟨hno, hmap, .inr ?_⟩
      rcases hk with rfl | hk
      · exact Call.prepare_next hstep
      · exact Call.fails_next hk hstep
    | _ => trivial
  | @returned k next R' r timedOut hcall =>
    cases next with
    | prepared ts p =>
      obtain ⟨hno, hmap, hk⟩ := h
      obtain ⟨m, hstep, rfl⟩ := Replica.call_eq hcall
      have hn : AfterCall.returned r (.prepared ts p) = .goto pc' := hn
      simp only [AfterCall.returned] at hn
      split_ifs at hn with hok
      · cases hn
        rcases hk with rfl | hk
        · obtain ⟨t, ht, hstate, hts⟩ := Call.prepare_done hstep hok
          refine ⟨hno, hmap, ?_⟩
          intro t' ht'
          cases ht.symm.trans ht'
          exact ⟨hstate, hts⟩
        · exact absurd hok (Call.fails_done hk hstep)
      · cases hn
        trivial
    | answer => cases hn
    | _ =>
      cases hn
      trivial
  | @prepareLocal ts p hp =>
    cases hn
    exact ⟨h, hmapped h p hp, .inl rfl⟩
  | @packed ts p t ht =>
    cases hn
    obtain ⟨hno, hmap, hp⟩ := h
    cases (show Rpc.prepare T c = .prepare T ts from hof)
    exact ⟨hno, t.writeSet, hfits _ _ _ rfl ht, rfl, Ready.of_packed hno hmap hp ht hon⟩
  | @proposed type payload next L hL hidle =>
    cases hn
    cases next with
    | prepareBatch p =>
      obtain ⟨hno, ws, hws, rfl, hr⟩ := h
      obtain ⟨ts, ws', -, rfl, -⟩ := hof
      rw [hleader] at hL
      cases hL
      refine ⟨rfl, s.log.length, ⟨T, p.snapshotTs, c, ws⟩, rfl, ⟨?_, rfl, rfl⟩, ?_⟩
      · rw [commandAt_append_last]
        exact command_prepareBatch _ _ T p.snapshotTs c hws
      · exact .inl ⟨hon.bound, hr.append hon _⟩
    | _ => trivial
  | @notProposed type payload next | @timedOut L ix next =>
    cases next with
    | prepareBatch p =>
      cases hn
      trivial
    | _ => cases hn
  | @committed L ix next hidle hle =>
    cases next with
    | prepareBatch p =>
      cases hn
      obtain ⟨rfl, i, b, rfl, hb, ⟨hle', -⟩ | ⟨hlt, hst⟩⟩ := h
      · exact absurd hle' (Nat.not_le_of_lt hle)
      · rw [hb.txn] at hst
        exact ⟨i, b, hb, hlt, hst⟩
    | _ =>
      cases hn
      trivial
  | result =>
    cases hn
    obtain ⟨i, b, hb, hlt, hst⟩ := h
    exact ⟨i, b, hb, hlt, Agree.setSm hst rfl⟩
  | register | lookMap | missing | forgotten | abortLog | abortLocal | found | foundMap =>
    cases hn
    trivial
  | _ => cases hn

end TransDb.Shard
