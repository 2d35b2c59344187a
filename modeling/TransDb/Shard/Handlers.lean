import TransDb.Raft.ReplicaSim
import TransDb.Shard.Server

/-!
# What a step of a handler is

The cases of `Handler.step`, said once, and which places belong to which request.

* `Steps` — the steps of a handler as a relation; `Handler.steps` says that there are no
  others.
* `Pc.Of` — the places of a request; `Steps.of` says that a handler keeps to them.
* `ShardService.callers` — who is inside the manager of a replica.
* `ShardService.step_cases` — the steps of the machine.
-/

namespace TransDb.Shard

open Option Function Storage Txn Raft

/-! ## Steps -/

/-- The steps of a handler that stands at a place. -/
inductive Steps (s : ShardService) (x : Handler) : Pc → Effect → Prop where
  | more {c c' next R'} (timedOut : Bool)
      (h : (s.replicas x.replica).call x.rpc.raftTxnId c timedOut = some (R', .more c')) :
      Steps s x (.call c next) { s.keep x (.goto (.call c' next)) with replica := R' }
  | returned {c next R' r} (timedOut : Bool)
      (h : (s.replicas x.replica).call x.rpc.raftTxnId c timedOut = some (R', .done r)) :
      Steps s x (.call c next) { s.keep x (next.returned r) with replica := R' }
  | register {ts l} (h : (s.replicas x.replica).mutexFree = true) :
      Steps s x (.register ts l) { s.keep x (.goto (.addPending ts l)) with
        replica := { s.replicas x.replica with
          sm := (s.replicas x.replica).sm.registerLocalTxn x.rpc.raftTxnId l } }
  | addPending {ts l} :
      Steps s x (.addPending ts l) { s.keep x (.answer (.execute true .ok "" [] [])) with
        pendingTxns := update s.pendingTxns x.rpc.raftTxnId
          (some ⟨x.rpc.raftTxnId, ts, l, false⟩)
        home := update s.home x.rpc.raftTxnId x.replica }
  | found {op p} (h : s.pendingTxns x.rpc.raftTxnId = some p) :
      Steps s x (.find op) (s.keep x (.goto (.call (op.mgrOp p.localTxnId).entry .answer)))
  | lookMap {op} : Steps s x (.find op) (s.keep x (.goto (.findMap op)))
  | refused {op} : Steps s x (.find op) (s.keep x (.answer (.refuse "txn not begun on shard")))
  | foundMap {op l} (h : (s.replicas x.replica).sm.txnIdMap x.rpc.raftTxnId = some l) :
      Steps s x (.findMap op) (s.keep x (.goto (.call (op.mgrOp l).entry .answer)))
  | refusedMap {op} : Steps s x (.findMap op) (s.keep x (.answer (.refuse "txn not begun on shard")))
  | unknown {ts} : Steps s x (.prepareFind ts) (s.keep x (.answer (.prepare false "unknown txn")))
  | prepareLocal {ts p} (h : s.pendingTxns x.rpc.raftTxnId = some p) :
      Steps s x (.prepareFind ts)
        (s.keep x (.goto (.call (Op.prepare p.localTxnId ts).entry (.prepared ts p))))
  | missing {ts p} :
      Steps s x (.getTxn ts p)
        (s.keep x (.goto (.forget (.prepareFailed "prepared txn missing"))))
  | packed {ts p t} (h : (s.replicas x.replica).mgr.txns p.localTxnId = some t) :
      Steps s x (.getTxn ts p) (s.keep x (.goto (.propose .txnPrepareBatch
        (packPrepareBatchPayload x.rpc.raftTxnId p.snapshotTs ts t.writeSet) (.prepareBatch p))))
  | notProposed {type payload next} : Steps s x (.propose type payload next) (s.keep x next.failed)
  | proposed {type payload next} (L : ReplicaId) (hL : s.leader = some L)
      (hidle : (s.replicas L).applying = none) :
      Steps s x (.propose type payload next)
        { s.keep x (.goto (.wait L (s.log.length + 1) next)) with
          log := s.log ++ [⟨s.log.length + 1, s.term, type, payload⟩] }
  | committed {L ix next} (hidle : (s.replicas L).applying = none)
      (h : ix ≤ (s.replicas L).lastApplied) : Steps s x (.wait L ix next) (s.keep x next.succeeded)
  | timedOut {L ix next} : Steps s x (.wait L ix next) (s.keep x next.failed)
  | noResult : Steps s x .takeResult (s.keep x (.answer (.prepare false "missing prepare result")))
  | result (hfree : (s.replicas x.replica).mutexFree = true) :
      Steps s x .takeResult { s.keep x (.goto .markPrepared) with
        replica := { s.replicas x.replica with
          sm := (s.replicas x.replica).sm.setPrepareResult x.rpc.raftTxnId none } }
  | badResult {message} :
      Steps s x .takeResult { s.keep x (.answer (.prepare false message)) with
        replica := { s.replicas x.replica with
          sm := (s.replicas x.replica).sm.setPrepareResult x.rpc.raftTxnId none } }
  | marked :
      Steps s x .markPrepared { s.keep x (.answer (.prepare true "")) with
        pendingTxns := update s.pendingTxns x.rpc.raftTxnId
          ((s.pendingTxns x.rpc.raftTxnId).map fun p => { p with preparedReplicated := true }) }
  | forgotten {why} (hfree : (s.replicas x.replica).mutexFree = true) :
      Steps s x (.forget why) { s.keep x (.goto (.erase why)) with
        replica := { s.replicas x.replica with
          sm := (s.replicas x.replica).sm.forgetTxn x.rpc.raftTxnId } }
  | erasedFailed {message} :
      Steps s x (.erase (.prepareFailed message)) { s.keep x (.answer (.prepare false message)) with
        pendingTxns := update s.pendingTxns x.rpc.raftTxnId none }
  | erasedAborted :
      Steps s x (.erase .aborted) { s.keep x (.answer (.abort true)) with
        pendingTxns := update s.pendingTxns x.rpc.raftTxnId none
        terminalTxnStates :=
          update s.terminalTxnStates x.rpc.raftTxnId (some .aborted) }
  | finished :
      Steps s x .finishCommit { s.keep x (.answer (.commit true "")) with
        pendingTxns := update s.pendingTxns x.rpc.raftTxnId none
        terminalTxnStates :=
          update s.terminalTxnStates x.rpc.raftTxnId (some .committed) }
  | abortLog (h : ∀ p, s.pendingTxns x.rpc.raftTxnId = some p → p.preparedReplicated = true) :
      Steps s x .abortFind
        (s.keep x (.goto (.propose .txnAbort (packAbortPayload x.rpc.raftTxnId) .abort)))
  | abortLocal {p} (h : s.pendingTxns x.rpc.raftTxnId = some p) (hp : p.preparedReplicated = false) :
      Steps s x .abortFind (s.keep x (.goto (.call (Op.abort p.localTxnId).entry .aborted)))
  | answered {state} (h : state = .committed →
        s.terminalTxnStates x.rpc.raftTxnId = some .committed) :
      Steps s x .query (s.keep x (.answer (.txnState state)))

variable {s : ShardService} {timedOut : Bool} {x : Handler} {f : Effect} {next : Proposal}
    {th : ThreadId}

/-- **A step of a handler is one of the list.** -/
theorem Handler.steps (h : x.step s timedOut = some f) : Steps s x x.pc f := by
  obtain ⟨rpc, L, pc⟩ := x
  cases pc with
  | call c next =>
    simp only [Handler.step] at h
    split at h
    · cases h
    · rename_i R' c' hcall
      cases h
      exact .more timedOut hcall
    · rename_i R' r hcall
      cases h
      exact .returned timedOut hcall
  | register ts l =>
    obtain ⟨hfree, heq⟩ := ite_none_right_eq_some.mp h
    cases heq
    exact .register hfree
  | addPending ts l =>
    cases h
    exact .addPending
  | find op =>
    simp only [Handler.step] at h
    cases hp : s.pendingTxns rpc.raftTxnId with
    | none =>
      simp only [hp, map_none, getD_none, ne_eq, not_true_eq_false, if_false] at h
      split_ifs at h
      · cases h
        exact .lookMap
      · cases h
        exact .refused
    | some p =>
      simp only [hp, map_some, getD_some] at h
      split_ifs at h
      · cases h
        exact .found hp
      · cases h
        exact .lookMap
      · cases h
        exact .refused
  | findMap op =>
    obtain ⟨-, h⟩ := ite_none_right_eq_some.mp h
    simp only [RaftStateMachine.getLocalTxnId] at h
    cases hl : (s.replicas L).sm.txnIdMap rpc.raftTxnId with
    | none =>
      simp only [hl, getD_none, ne_eq, not_true_eq_false, if_false] at h
      cases h
      exact .refusedMap
    | some l =>
      simp only [hl, getD_some] at h
      split_ifs at h
      · cases h
        exact .foundMap hl
      · cases h
        exact .refusedMap
  | prepareFind ts =>
    simp only [Handler.step] at h
    cases hp : s.pendingTxns rpc.raftTxnId with
    | none =>
      rw [hp] at h
      cases h
      exact .unknown
    | some p =>
      rw [hp] at h
      cases h
      exact .prepareLocal hp
  | getTxn ts p =>
    simp only [Handler.step] at h
    cases ht : (s.replicas L).mgr.txns p.localTxnId with
    | none =>
      rw [ht] at h
      cases h
      exact .missing
    | some t =>
      rw [ht] at h
      cases h
      exact .packed ht
  | propose type payload next =>
    simp only [Handler.step] at h
    cases hL : s.leader with
    | none =>
      rw [hL] at h
      cases h
      exact .notProposed
    | some L' =>
      simp only [hL] at h
      obtain ⟨hidle, heq⟩ := ite_none_left_eq_some.mp h
      cases heq
      exact .proposed L' hL (by simpa using hidle)
  | wait L' ix next =>
    simp only [Handler.step] at h
    obtain ⟨hidle, h⟩ := ite_none_left_eq_some.mp h
    split_ifs at h with hle
    · cases h
      exact .committed (by simpa using hidle) hle
    · cases h
      exact .timedOut
  | takeResult =>
    obtain ⟨hfree, h⟩ := ite_none_right_eq_some.mp h
    cases hr : (s.replicas L).sm.prepareResults rpc.raftTxnId with
    | none =>
      simp only [hr] at h
      cases h
      exact .noResult
    | some pr =>
      simp only [hr] at h
      cases h
      by_cases hs : pr.success = true
      · rw [if_pos hs]
        exact .result hfree
      · rw [if_neg hs]
        exact .badResult
  | markPrepared =>
    cases h
    exact .marked
  | forget why =>
    obtain ⟨hfree, heq⟩ := ite_none_right_eq_some.mp h
    cases heq
    exact .forgotten hfree
  | erase why =>
    cases why with
    | prepareFailed message =>
      cases h
      exact .erasedFailed
    | aborted =>
      cases h
      exact .erasedAborted
  | finishCommit =>
    cases h
    exact .finished
  | abortFind =>
    simp only [Handler.step] at h
    cases hp : s.pendingTxns rpc.raftTxnId with
    | none =>
      rw [hp] at h
      cases h
      exact .abortLog (by simp [hp])
    | some p =>
      simp only [hp] at h
      split_ifs at h with hprep
      · cases h
        exact .abortLog (by simpa [hp] using hprep)
      · cases h
        exact .abortLocal hp (by simpa using hprep)
  | query =>
    simp only [Handler.step] at h
    split at h
    · rename_i state hstate
      cases h
      exact .answered fun hc => hc ▸ hstate
    · repeat' split at h
      all_goals cases h
      all_goals exact .answered nofun

/-! ## The places of a request -/

/-- The operation that is called, and what follows it. -/
def AfterCall.Of (rpc : Rpc) (op : Op) : AfterCall → Prop
  | .begun ts => rpc = .execute rpc.raftTxnId (.begin ts) ∧ op = .begin ts
  | .answer => ∃ e l, rpc = .execute rpc.raftTxnId e ∧ (∀ ts, e ≠ .begin ts) ∧ op = e.mgrOp l
  | .prepared ts p => rpc = .prepare rpc.raftTxnId ts ∧ op = .prepare p.localTxnId ts
  | .abandoned _ => (∃ ts, rpc = .prepare rpc.raftTxnId ts) ∧ ∃ l, op = .abort l
  | .aborted => rpc = .abort rpc.raftTxnId ∧ ∃ l, op = .abort l

/-- The proposal is for the request. -/
def Proposal.Of (rpc : Rpc) : Proposal → Prop
  | .prepareBatch _ => ∃ ts, rpc = .prepare rpc.raftTxnId ts
  | .commit => ∃ ts, rpc = .commit rpc.raftTxnId ts
  | .abort => rpc = .abort rpc.raftTxnId

/-- The entry that is proposed. -/
def Proposal.Packs (rpc : Rpc) (type : RaftEntryType) (payload : Bytes) : Proposal → Prop
  | .prepareBatch p => ∃ ts ws, rpc = .prepare rpc.raftTxnId ts ∧ type = .txnPrepareBatch ∧
      payload = packPrepareBatchPayload rpc.raftTxnId p.snapshotTs ts ws
  | .commit => ∃ ts, rpc = .commit rpc.raftTxnId ts ∧ type = .txnCommit ∧
      payload = packTxnPayload (WAL.serializeCommitPayload ts) rpc.raftTxnId
  | .abort => rpc = .abort rpc.raftTxnId ∧ type = .txnAbort ∧
      payload = packAbortPayload rpc.raftTxnId

/-- The erasure is for the request. -/
def Erasure.Of (rpc : Rpc) : Erasure → Prop
  | .prepareFailed _ => ∃ ts, rpc = .prepare rpc.raftTxnId ts
  | .aborted => rpc = .abort rpc.raftTxnId

/-- The places where the handler of a request can stand. -/
def Pc.Of (rpc : Rpc) : Pc → Prop
  | .call c next => ∃ op, c.Serves op ∧ next.Of rpc op
  | .register ts _ => rpc = .execute rpc.raftTxnId (.begin ts)
  | .addPending ts _ => rpc = .execute rpc.raftTxnId (.begin ts)
  | .find op => rpc = .execute rpc.raftTxnId op ∧ ∀ ts, op ≠ .begin ts
  | .findMap op => rpc = .execute rpc.raftTxnId op ∧ ∀ ts, op ≠ .begin ts
  | .prepareFind ts => rpc = .prepare rpc.raftTxnId ts
  | .getTxn ts _ => rpc = .prepare rpc.raftTxnId ts
  | .propose type payload next => next.Packs rpc type payload
  | .wait _ _ next => next.Of rpc
  | .takeResult => ∃ ts, rpc = .prepare rpc.raftTxnId ts
  | .markPrepared => ∃ ts, rpc = .prepare rpc.raftTxnId ts
  | .forget why => why.Of rpc
  | .erase why => why.Of rpc
  | .finishCommit => ∃ ts, rpc = .commit rpc.raftTxnId ts
  | .abortFind => rpc = .abort rpc.raftTxnId
  | .query => rpc = .queryTxnState rpc.raftTxnId

theorem Rpc.entry_of (rpc : Rpc) : rpc.entry.Of rpc := by
  cases rpc with
  | execute T op =>
    cases op with
    | «begin» ts => exact ⟨_, Op.entry_serves _, rfl, rfl⟩
    | _ => exact ⟨rfl, by simp⟩
  | commit T ts => exact ⟨ts, rfl, rfl, rfl⟩
  | _ => rfl

variable {rpc : Rpc}

theorem Proposal.Packs.of {type : RaftEntryType} {payload : Bytes}
    (h : next.Packs rpc type payload) : next.Of rpc := by
  cases next with
  | prepareBatch p =>
    obtain ⟨ts, -, hrpc, -⟩ := h
    exact ⟨ts, hrpc⟩
  | commit =>
    obtain ⟨ts, hrpc, -⟩ := h
    exact ⟨ts, hrpc⟩
  | abort => exact h.1

theorem Proposal.Of.failed (h : next.Of rpc) {pc : Pc} (hn : next.failed = .goto pc) :
    pc.Of rpc := by
  cases next with
  | prepareBatch p =>
    cases hn
    exact ⟨_, Op.entry_serves _, h, _, rfl⟩
  | commit | abort => cases hn

/-- **A handler keeps to the places of its request.** -/
theorem Steps.of {pc : Pc} (h : Steps s x pc f) (hof : pc.Of x.rpc) {pc' : Pc}
    (hn : f.next = .goto pc') : pc'.Of x.rpc := by
  cases h with
  | more timedOut hcall =>
    cases hn
    obtain ⟨op, hserves, hop⟩ := hof
    obtain ⟨m, hstep, -⟩ := Replica.call_eq hcall
    exact ⟨op, hserves.next hstep rfl, hop⟩
  | @returned c next R' r timedOut hcall =>
    obtain ⟨op, hserves, hop⟩ := hof
    cases next with
    | begun ts | abandoned message | aborted =>
      cases hn
      exact hop.1
    | answer => cases hn
    | prepared ts p =>
      have hn : AfterCall.returned r (.prepared ts p) = .goto pc' := hn
      simp only [AfterCall.returned] at hn
      split_ifs at hn
      · cases hn
        exact hop.1
      · cases hn
        exact ⟨_, Op.entry_serves _, ⟨ts, hop.1⟩, _, rfl⟩
  | found | foundMap =>
    cases hn
    exact ⟨_, Op.entry_serves _, _, _, hof.1, hof.2, rfl⟩
  | prepareLocal =>
    cases hn
    exact ⟨_, Op.entry_serves _, hof, rfl⟩
  | missing =>
    cases hn
    exact ⟨_, hof⟩
  | packed =>
    cases hn
    exact ⟨_, _, hof, rfl, rfl⟩
  | notProposed => exact (Proposal.Packs.of hof).failed hn
  | proposed =>
    cases hn
    exact Proposal.Packs.of hof
  | timedOut => exact Proposal.Of.failed hof hn
  | @committed L ix next =>
    cases next with
    | prepareBatch | commit =>
      cases hn
      exact hof
    | abort =>
      cases hn
      exact hof
  | abortLog =>
    cases hn
    exact ⟨hof, rfl, rfl⟩
  | abortLocal =>
    cases hn
    exact ⟨_, Op.entry_serves _, hof, _, rfl⟩
  | register | lookMap | result | forgotten =>
    cases hn
    exact hof
  | _ => cases hn

/-! ## Who is inside a manager -/

/-- The Raft thread of a replica, or a handler. -/
abbrev Caller := Option ThreadId

/-- The call in progress. -/
def Pc.inCall : Pc → Option Call
  | .call c _ => some c
  | _ => none

/-- The call that comes next. -/
def Next.inCall : Next → Option Call
  | .goto pc => pc.inCall
  | .answer _ => none

/-- The call at a replica. -/
def Handler.inCall (r : ReplicaId) (x : Handler) : Option Call :=
  if x.replica = r then x.pc.inCall else none

/-- The calls of the manager of a replica. -/
def ShardService.callers (s : ShardService) (r : ReplicaId) : Caller → Option Call
  | none => (s.replicas r).inCall
  | some th => (s.handlers th).bind (Handler.inCall r)

theorem ShardService.callers_after (hx : s.handlers th = some x)
    (hsame : f.replica.applying = (s.replicas x.replica).applying) (r : ReplicaId) :
    (s.after th x f).callers r =
      if r = x.replica then update (s.callers r) (some th) f.next.inCall
      else s.callers r := by
  funext i
  cases i with
  | none =>
    by_cases hr : r = x.replica
    · subst hr
      simp only [callers, after, update_self, if_true, Replica.inCall, hsame]
      rw [update_of_ne (by simp)]
      rfl
    · simp [callers, after, hr]
  | some j =>
    by_cases hj : j = th
    · subst hj
      have hnew : (s.after j x f).callers r (some j) = if x.replica = r then f.next.inCall else none := by
        cases hn : f.next <;> simp [callers, after, hn, Handler.inCall, Next.inCall]
      rw [hnew]
      by_cases hr : r = x.replica
      · rw [if_pos hr, if_pos hr.symm, update_self]
      · rw [if_neg hr, if_neg (Ne.symm hr)]
        simp [callers, hx, Handler.inCall, Ne.symm hr]
    · have hold : (s.after th x f).callers r (some j) = s.callers r (some j) := by
        simp [callers, after, hj]
      rw [hold]
      split_ifs
      · rw [update_of_ne (by simpa using hj)]
      · rfl

theorem ShardService.callers_of_handler (hx : s.handlers th = some x) :
    s.callers x.replica (some th) = x.pc.inCall := by
  simp [callers, hx, Handler.inCall]

/-! ## Steps of the machine -/

theorem ShardService.receive_cases (s : ShardService) (th : ThreadId) (rpc : Rpc) :
    (∃ L, (s.leader = some L ∨ ∃ T, rpc = .queryTxnState T) ∧ s.receive th rpc = s.started th rpc L) ∨
      s.receive th rpc = s.turnedAway th rpc := by
  cases rpc with
  | queryTxnState T => exact .inl ⟨0, .inr ⟨T, rfl⟩, rfl⟩
  | _ =>
    cases hL : s.leader with
    | some L =>
      refine .inl ⟨L, .inl rfl, ?_⟩
      simp only [receive, hL]
    | none =>
      refine .inr ?_
      simp only [receive, hL]

/-- The handlers after a step: one has moved or is gone. -/
theorem ShardService.handlers_after {j : ThreadId} {y : Handler}
    (hj : (s.after th x f).handlers j = some y) :
    (j = th ∧ ∃ pc, f.next = .goto pc ∧ y = { x with pc := pc }) ∨
      (j ≠ th ∧ s.handlers j = some y) := by
  rcases update_eq_cases hj with ⟨rfl, heq⟩ | hother
  · cases hn : f.next with
    | answer r => simp [hn] at heq
    | goto pc =>
      simp only [hn, some.injEq] at heq
      exact .inl ⟨rfl, pc, rfl, heq.symm⟩
  · exact .inr hother

theorem ShardService.handlers_started {L : ReplicaId} {j : ThreadId} {y : Handler}
    (hj : (s.started th rpc L).handlers j = some y) :
    (j = th ∧ y = ⟨rpc, L, rpc.entry⟩) ∨ (j ≠ th ∧ s.handlers j = some y) := by
  rcases update_eq_cases hj with ⟨rfl, heq⟩ | hother
  · exact .inl ⟨rfl, (some.inj heq).symm⟩
  · exact .inr hother

theorem ShardService.step_cases {s' : ShardService} {a : Action} (h : s.step a = some s') :
    (∃ th rpc, a = .receive th rpc ∧ s.handlers th = none ∧ s' = s.receive th rpc) ∨
    (∃ th timedOut x f, a = .step th timedOut ∧ s.handlers th = some x ∧ Steps s x x.pc f ∧
      s' = s.after th x f) ∨
    (∃ r timedOut R, a = .apply r timedOut ∧ s.apply r timedOut = some R ∧
      s' = { s with replicas := update s.replicas r R }) ∨
    (∃ n, a = .advance n ∧ s.commitIndex ≤ n ∧ n ≤ s.log.length ∧
      s' = { s with commitIndex := n }) ∨
    (∃ leader kept log, a = .elect leader kept ∧ s.commitIndex ≤ kept ∧
      s' = { s with leader := leader, term := s.term + 1, log := log } ∧
      (log = s.log.take kept ∨ ∃ ix term, log = s.log.take kept ++ [⟨ix, term, .noop, []⟩])) := by
  cases a with
  | receive th rpc =>
    obtain ⟨h1, h2⟩ := ite_none_right_eq_some.mp h
    exact .inl ⟨th, rpc, rfl, isNone_iff_eq_none.mp h1, (some.inj h2).symm⟩
  | step th timedOut =>
    simp only [step] at h
    cases hx : s.handlers th with
    | none => simp [hx] at h
    | some x =>
      rw [hx] at h
      obtain ⟨f, hf, rfl⟩ := map_eq_some_iff.mp h
      exact .inr (.inl ⟨th, timedOut, x, f, rfl, hx, Handler.steps hf, rfl⟩)
  | apply r timedOut =>
    obtain ⟨R, hR, rfl⟩ := map_eq_some_iff.mp h
    exact .inr (.inr (.inl ⟨r, timedOut, R, rfl, hR, rfl⟩))
  | advance n =>
    obtain ⟨⟨h1, h2⟩, h3⟩ := ite_none_right_eq_some.mp h
    exact .inr (.inr (.inr (.inl ⟨n, rfl, h1, h2, (some.inj h3).symm⟩)))
  | elect leader kept =>
    obtain ⟨h1, h2⟩ := ite_none_right_eq_some.mp h
    refine .inr (.inr (.inr (.inr ⟨leader, kept, _, rfl, h1, (some.inj h2).symm, ?_⟩)))
    split_ifs
    · exact .inr ⟨_, _, rfl⟩
    · exact .inl rfl

/-- The Raft thread of a replica takes the next entry, or goes on with the one it has. -/
theorem ShardService.apply_cases {r : ReplicaId} {R : Replica} (h : s.apply r timedOut = some R) :
    (∃ a, (s.replicas r).applying = some a ∧ (s.replicas r).applyStep timedOut a = some R) ∨
    (∃ e, (s.replicas r).applying = none ∧ (s.replicas r).lastApplied < s.commitIndex ∧
      s.log[(s.replicas r).lastApplied]? = some e ∧
      R = { s.replicas r with applying := some (.entry e) }) := by
  simp only [apply] at h
  cases ha : (s.replicas r).applying with
  | some a =>
    rw [ha] at h
    exact .inl ⟨a, rfl, h⟩
  | none =>
    simp only [ha] at h
    obtain ⟨hlt, h⟩ := ite_none_right_eq_some.mp h
    obtain ⟨e, he, rfl⟩ := map_eq_some_iff.mp h
    exact .inr ⟨e, rfl, hlt, he, rfl⟩

theorem ShardService.callers_started (hth : s.handlers th = none) (rpc : Rpc) (L r : ReplicaId) :
    (s.started th rpc L).callers r =
      if r = L then update (s.callers r) (some th) rpc.entry.inCall else s.callers r := by
  funext i
  cases i with
  | none =>
    split_ifs
    · rw [update_of_ne (by simp)]
      rfl
    · rfl
  | some j =>
    by_cases hj : j = th
    · subst hj
      by_cases hr : r = L
      · simp [callers, started, Handler.inCall, hr]
      · simp [callers, started, Handler.inCall, hr, Ne.symm hr, hth]
    · have hold : (s.started th rpc L).callers r (some j) = s.callers r (some j) := by
        simp [callers, started, hj]
      rw [hold]
      split_ifs
      · rw [update_of_ne (by simpa using hj)]
      · rfl

theorem ShardService.callers_apply (r r' : ReplicaId) (R : Replica) :
    ({ s with replicas := update s.replicas r R } : ShardService).callers r' =
      if r' = r then update (s.callers r') none R.inCall else s.callers r' := by
  funext i
  cases i with
  | none =>
    by_cases hr : r' = r
    · subst hr
      simp [callers]
    · simp [callers, hr]
  | some j =>
    split_ifs
    · rw [update_of_ne (by simp)]
      rfl
    · rfl

/-- The history grows by the answer. -/
theorem ShardService.history_after (s : ShardService) (th : ThreadId) (x : Handler) (f : Effect) :
    (s.after th x f).history = s.history ∨ ∃ r, f.next = .answer r ∧
      (s.after th x f).history = .answered th x.rpc r :: s.history := by
  cases hn : f.next with
  | goto pc =>
    left
    simp only [ShardService.after, hn]
  | answer r =>
    right
    exact ⟨r, rfl, by simp only [ShardService.after, hn]⟩

/-- What the clients have seen stays. -/
theorem ShardService.step_history {s' : ShardService} {a : Action} (h : s.step a = some s') :
    s.history ⊆ s'.history := by
  rcases ShardService.step_cases h with ⟨th, rpc, -, -, rfl⟩ | ⟨th, -, x, f, -, -, -, rfl⟩ |
    ⟨r, -, R, -, -, rfl⟩ | ⟨n, -, -, -, rfl⟩ | ⟨leader, kept, log, -, -, rfl, -⟩
  · rcases s.receive_cases th rpc with ⟨L, -, heq⟩ | heq <;> rw [heq]
    · exact List.subset_cons_self _ _
    · exact fun ev hev => List.mem_cons_of_mem _ (List.mem_cons_of_mem _ hev)
  · rcases s.history_after th x f with heq | ⟨r, -, heq⟩ <;> rw [heq]
    · exact List.Subset.refl _
    · exact List.subset_cons_self _ _
  all_goals exact List.Subset.refl _

end TransDb.Shard
