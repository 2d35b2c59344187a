import TransDb.Shard.Handlers

/-!
# Requests and local transactions

A handler works on the local transaction that `pending_txns_` or the map of the state
machine has for its request.  On the replica where that transaction was begun it is the
request's own; on another replica the same number can be somebody else's.

* `Pc.held` — the local transaction that a handler works on.
* `Owned` — the invariant; `Owned.step`, `Owned.receive` and `Owned.apply` keep it.
* `ShardService.homed` — what is found pending was begun on the replica that serves.
* `handler_works_on_own_txn` — **a request works only on its own local transaction**, in
  every such run.
* `write_reaches_other_txn` — after a change of leader it can reach another one.
-/

namespace TransDb.Shard

open Option Function Storage Txn Raft

/-- The local transaction it holds. -/
def Proposal.held : Proposal → Option TxnId
  | .prepareBatch p => some p.localTxnId
  | _ => none

/-- The local transaction that a handler works on. -/
def Pc.held : Pc → Option TxnId
  | .call c _ => c.target
  | .register _ l => some l
  | .addPending _ l => some l
  | .getTxn _ p => some p.localTxnId
  | .propose _ _ next => next.held
  | .wait _ _ next => next.held
  | _ => none

/-- The handler is about to look into `pending_txns_` for a local transaction. -/
def Pc.looksUp : Pc → Bool
  | .find _ => true
  | .prepareFind _ => true
  | .abortFind => true
  | _ => false

/-- **The invariant** of local transactions. -/
structure Owned (s : ShardService) : Prop where
  replica : ∀ r, ∃ phase, ReplicaOk (s.replicas r) (s.callers r) phase
  pending : ∀ T p, s.pendingTxns T = some p →
    (s.replicas (s.home T)).begunFor p.localTxnId = some T
  shape : ∀ th x, s.handlers th = some x → x.pc.Of x.rpc
  held : ∀ th x, s.handlers th = some x → ∀ l, x.pc.held = some l →
    (s.replicas x.replica).begunFor l = some x.rpc.raftTxnId

theorem Owned.init : Owned ShardService.init where
  replica := fun r => by
    have hcallers : ShardService.init.callers r = fun _ => none := by
      funext i
      cases i <;> rfl
    rw [hcallers]
    exact ⟨_, ReplicaOk.init⟩
  pending := fun _ _ h => by cases h
  shape := fun _ _ h => by cases h
  held := fun _ _ h => by cases h

/-! ## Steps of handlers -/

section Steps

variable {s : ShardService} {x : Handler} {pc : Pc} {f : Effect}

theorem Steps.applying (h : Steps s x pc f) :
    f.replica.applying = (s.replicas x.replica).applying := by
  cases h with
  | more _ hcall | returned _ hcall =>
    obtain ⟨m, -, rfl⟩ := Replica.call_eq hcall
    rfl
  | _ => rfl

/-- A handler outside the manager goes into it at the start of a call. -/
theorem Steps.starts (h : Steps s x pc f) (hpc : pc.inCall = none) :
    f.next.inCall = none ∨ ∃ op : Op, f.next.inCall = some op.entry := by
  cases h with
  | more | returned => cases hpc
  | found | foundMap | prepareLocal | abortLocal => exact .inr ⟨_, rfl⟩
  | @notProposed type payload next | @timedOut L ix next =>
    cases next with
    | prepareBatch p => exact .inr ⟨_, rfl⟩
    | _ => exact .inl rfl
  | @committed L ix next => cases next <;> exact .inl rfl
  | _ => exact .inl rfl

theorem AfterCall.starts (next : AfterCall) (r : Reply) :
    (next.returned r).inCall = none ∨ ∃ op : Op, (next.returned r).inCall = some op.entry := by
  cases next with
  | prepared ts p =>
    unfold AfterCall.returned
    split_ifs
    · exact .inl rfl
    · exact .inr ⟨_, rfl⟩
  | _ => exact .inl rfl

variable {calls : Caller → Option Call} {phase : TxnId → Phase Caller}

theorem Steps.extends (h : Steps s x pc f) {i : Caller}
    (hok : ReplicaOk (s.replicas x.replica) calls phase) (hcalls : calls i = pc.inCall) :
    Extends (s.replicas x.replica) f.replica := by
  cases h with
  | more _ hcall | returned _ hcall => exact hok.extends_call hcalls hcall
  | _ => exact Extends.refl _

theorem Steps.replicaOk (h : Steps s x pc f) {th : ThreadId}
    (hok : ReplicaOk (s.replicas x.replica) calls phase) (hcalls : calls (some th) = pc.inCall)
    (hheld : ∀ l, pc.held = some l → (s.replicas x.replica).begunFor l = some x.rpc.raftTxnId) :
    ∃ phase', ReplicaOk f.replica (update calls (some th) f.next.inCall) phase' := by
  -- outside the manager the calls start or do not
  have hstart : pc.inCall = none → ∀ {R : Replica}, ReplicaOk R calls phase →
      ReplicaOk R (update calls (some th) f.next.inCall) phase :=
    fun hpc R hR => hR.start (hcalls.trans hpc) (h.starts hpc)
  cases h with
  | more _ hcall => exact hok.call hcalls hcall
  | @returned c next R' r _ hcall =>
    obtain ⟨phase', hok'⟩ := hok.call hcalls hcall
    have hnext := hok'.start (update_self ..) (next.starts r)
    rw [update_idem] at hnext
    exact ⟨phase', hnext⟩
  | register =>
    refine ⟨phase, hstart rfl (hok.setSm ?_)⟩
    intro T l hl
    rcases registerLocalTxn_map hl with ⟨rfl, rfl⟩ | hold
    · exact hheld l rfl
    · exact hok.map T l hold
  | result | badResult => exact ⟨phase, hstart rfl (hok.setSm hok.map)⟩
  | forgotten =>
    exact ⟨phase, hstart rfl (hok.setSm fun T l hl => hok.map T l (eraseTxn_map hl))⟩
  | _ => exact ⟨phase, hstart rfl hok⟩

/-- What is pending was pending before, or has just been begun. -/
theorem Steps.pending (h : Steps s x pc f) {T : RaftTxnId} {p : PendingTxn}
    (hp : f.pendingTxns T = some p) :
    (∃ p0, s.pendingTxns T = some p0 ∧ p0.localTxnId = p.localTxnId ∧ f.home T = s.home T) ∨
      ∃ ts, pc = .addPending ts p.localTxnId ∧ T = x.rpc.raftTxnId ∧ f.home T = x.replica := by
  cases h with
  | addPending =>
    rcases update_eq_cases hp with ⟨rfl, ⟨⟩⟩ | ⟨hT, hp⟩
    · exact .inr ⟨_, rfl, rfl, update_self ..⟩
    · exact .inl ⟨p, hp, rfl, update_of_ne hT ..⟩
  | marked =>
    rcases update_eq_cases hp with ⟨rfl, hp'⟩ | ⟨-, hp⟩
    · obtain ⟨p0, hp0, rfl⟩ := map_eq_some_iff.mp hp'
      exact .inl ⟨p0, hp0, rfl, rfl⟩
    · exact .inl ⟨p, hp, rfl, rfl⟩
  | erasedFailed | erasedAborted | finished =>
    rcases update_eq_cases hp with ⟨rfl, hp'⟩ | ⟨-, hp⟩
    · cases hp'
    · exact .inl ⟨p, hp, rfl, rfl⟩
  | _ => exact .inl ⟨p, hp, rfl, rfl⟩

theorem ExecuteOp.target_entry {op : ExecuteOp} (h : ∀ ts, op ≠ .begin ts) (l : TxnId) :
    (op.mgrOp l).entry.target = some l := by
  rw [(Op.entry_serves _).target]
  cases op with
  | «begin» ts => exact absurd rfl (h ts)
  | _ => rfl

/-- A handler goes on with its own local transaction. -/
theorem Steps.held (h : Steps s x pc f) {i : Caller}
    (hok : ReplicaOk (s.replicas x.replica) calls phase) (hcalls : calls i = pc.inCall)
    (hof : pc.Of x.rpc)
    (hheld : ∀ l, pc.held = some l → (s.replicas x.replica).begunFor l = some x.rpc.raftTxnId)
    (hpending : pc.looksUp = true → ∀ p, s.pendingTxns x.rpc.raftTxnId = some p →
      (s.replicas x.replica).begunFor p.localTxnId = some x.rpc.raftTxnId) {pc' : Pc}
    (hn : f.next = .goto pc') {l : TxnId} (hl : pc'.held = some l) :
    f.replica.begunFor l = some x.rpc.raftTxnId := by
  have he := h.extends hok hcalls
  cases h with
  | more _ hcall =>
    cases hn
    obtain ⟨op, hserves, -⟩ := hof
    obtain ⟨m, hstep, -⟩ := Replica.call_eq hcall
    refine he l _ (hheld l ?_)
    exact hserves.target.trans ((hserves.next hstep rfl).target.symm.trans hl)
  | @returned c next R' r _ hcall =>
    obtain ⟨op, hserves, hop⟩ := hof
    obtain ⟨m, hstep, -⟩ := Replica.call_eq hcall
    cases next with
    | begun ts =>
      cases hn
      cases hl
      obtain ⟨l', hl'⟩ := hserves.hands_out (.inl ⟨ts, hop.2⟩) hstep
      rw [hl']
      exact Replica.begunFor_call hcall rfl hl'
    | answer => cases hn
    | prepared ts p =>
      have hp : c.target = some p.localTxnId := by rw [hserves.target, hop.2]; rfl
      have hn : AfterCall.returned r (.prepared ts p) = .goto pc' := hn
      simp only [AfterCall.returned] at hn
      split_ifs at hn
      · cases hn
        cases hl
        exact he _ _ (hheld _ hp)
      · cases hn
        cases hl
        exact he _ _ (hheld _ hp)
    | abandoned message =>
      cases hn
      cases hl
    | aborted =>
      cases hn
      cases hl
  | register | packed | proposed =>
    cases hn
    exact hheld l hl
  | found hp =>
    cases hn
    have hl' := (ExecuteOp.target_entry hof.2 _).symm.trans hl
    cases hl'
    exact hpending rfl _ hp
  | foundMap hmap =>
    cases hn
    have hl' := (ExecuteOp.target_entry hof.2 _).symm.trans hl
    cases hl'
    exact hok.map _ _ hmap
  | prepareLocal hp | abortLocal hp =>
    cases hn
    cases hl
    exact hpending rfl _ hp
  | @notProposed type payload next | @timedOut L ix next =>
    cases next with
    | prepareBatch p =>
      cases hn
      exact hheld l hl
    | _ => cases hn
  | @committed L ix next =>
    cases next <;> (cases hn; cases hl)
  | lookMap | missing | result | forgotten | abortLog =>
    cases hn
    cases hl
  | _ => cases hn

end Steps

/-! ## Runs -/

/-- What a handler finds pending was begun on the replica that serves it. -/
def ShardService.homed (s : ShardService) : Action → Bool
  | .step th _ =>
    match s.handlers th with
    | some x =>
      !x.pc.looksUp || (s.pendingTxns x.rpc.raftTxnId).isNone ||
        decide (s.home x.rpc.raftTxnId = x.replica)
    | none => true
  | _ => true

section Runs

variable {s : ShardService} {th : ThreadId}

theorem Owned.receive (h : Owned s) (hth : s.handlers th = none) (rpc : Rpc) :
    Owned (s.receive th rpc) := by
  rcases s.receive_cases th rpc with ⟨L, -, heq⟩ | heq
  · rw [heq]
    refine ⟨?_, h.pending, ?_, ?_⟩
    · intro r
      obtain ⟨phase, hok⟩ := h.replica r
      rw [ShardService.callers_started hth]
      split_ifs
      · refine ⟨phase, hok.start (by simp [ShardService.callers, hth]) ?_⟩
        cases rpc with
        | execute T op =>
          cases op with
          | «begin» ts => exact .inr ⟨_, rfl⟩
          | _ => exact .inl rfl
        | _ => exact .inl rfl
      · exact ⟨phase, hok⟩
    · intro j x hj
      rcases ShardService.handlers_started hj with ⟨-, rfl⟩ | ⟨-, hj⟩
      · exact rpc.entry_of
      · exact h.shape j x hj
    · intro j x hj l hl
      rcases ShardService.handlers_started hj with ⟨-, rfl⟩ | ⟨-, hj⟩
      · cases rpc with
        | execute T op => cases op <;> cases hl
        | _ => cases hl
      · exact h.held j x hj l hl
  · rw [heq]
    exact ⟨h.replica, h.pending, h.shape, h.held⟩

theorem Owned.step (h : Owned s) {x : Handler} (hx : s.handlers th = some x) {f : Effect}
    (hs : Steps s x x.pc f)
    (hhome : x.pc.looksUp = true → ∀ p, s.pendingTxns x.rpc.raftTxnId = some p →
      s.home x.rpc.raftTxnId = x.replica) : Owned (s.after th x f) := by
  obtain ⟨phase, hok⟩ := h.replica x.replica
  have hcalls := ShardService.callers_of_handler hx
  have hheld := h.held th x hx
  have he := hs.extends hok hcalls
  -- owners stay on every replica
  have hext : ∀ {r l T}, (s.replicas r).begunFor l = some T →
      ((s.after th x f).replicas r).begunFor l = some T := by
    intro r l T hl
    exact update_mono (P := fun R : Replica => R.begunFor l = some T) (fun _ => he l T) hl
  have hself : (s.after th x f).replicas x.replica = f.replica := update_self ..
  refine ⟨?_, ?_, ?_, ?_⟩
  · intro r
    rw [ShardService.callers_after hx hs.applying]
    split_ifs with hr
    · subst hr
      rw [hself]
      exact hs.replicaOk hok hcalls hheld
    · simp only [ShardService.after, update_of_ne hr]
      exact h.replica r
  · intro T p hp
    rcases hs.pending hp with ⟨p0, hp0, hlocal, hsame⟩ | ⟨ts, hpc, rfl, hsame⟩
    · rw [← hlocal]
      show ((s.after th x f).replicas (f.home T)).begunFor _ = _
      rw [hsame]
      exact hext (h.pending T p0 hp0)
    · show ((s.after th x f).replicas (f.home _)).begunFor _ = _
      rw [hsame]
      exact hext (hheld _ (by rw [hpc]; rfl))
  · intro j y hj
    rcases ShardService.handlers_after hj with ⟨-, pc, hn, rfl⟩ | ⟨-, hj⟩
    · exact hs.of (h.shape th x hx) hn
    · exact h.shape j y hj
  · intro j y hj l hl
    rcases ShardService.handlers_after hj with ⟨-, pc, hn, rfl⟩ | ⟨-, hj⟩
    · rw [hself]
      refine hs.held hok hcalls (h.shape th x hx) hheld ?_ hn hl
      intro hlooks p hp
      have := h.pending _ p hp
      rwa [hhome hlooks p hp] at this
    · exact hext (h.held j y hj l hl)

theorem Owned.apply (h : Owned s) {r : ReplicaId} {timedOut : Bool} {R : Replica}
    (hs : s.apply r timedOut = some R) :
    Owned { s with replicas := update s.replicas r R } := by
  obtain ⟨phase, hok⟩ := h.replica r
  have hR : (∃ phase', ReplicaOk R (update (s.callers r) none R.inCall) phase') ∧
      Extends (s.replicas r) R := by
    rcases ShardService.apply_cases hs with ⟨a, ha, hstep⟩ | ⟨e, hidle, -, -, rfl⟩
    · exact hok.apply ha hstep
    · have hraft : s.callers r none = none := by rw [hok.raft, Replica.inCall, hidle]; rfl
      have hin : Replica.inCall { s.replicas r with applying := some (.entry e) } =
          s.callers r none := hraft.symm
      refine ⟨⟨phase, ?_⟩, Extends.refl _⟩
      rw [hin, update_eq_self]
      refine ⟨hok.sim, hraft, hok.known, hok.map, ?_⟩
      intro a ha
      cases ha
      trivial
  have hext : ∀ {r' l T}, (s.replicas r').begunFor l = some T →
      (update s.replicas r R r').begunFor l = some T := by
    intro r' l T hl
    exact update_mono (P := fun R : Replica => R.begunFor l = some T) (fun _ => hR.2 l T) hl
  refine ⟨?_, fun T p hp => hext (h.pending T p hp), h.shape,
    fun j x hj l hl => hext (h.held j x hj l hl)⟩
  intro r'
  rw [ShardService.callers_apply]
  split_ifs with hr
  · subst hr
    simp only [update_self]
    exact hR.1
  · simp only [update_of_ne hr]
    exact h.replica r'

theorem Owned.next (h : Owned s) {a : Action} {s' : ShardService} (hhomed : s.homed a = true)
    (hs : s.step a = some s') : Owned s' := by
  rcases ShardService.step_cases hs with
    ⟨th, rpc, -, hth, rfl⟩ | ⟨th, timedOut, x, f, rfl, hx, hf, rfl⟩ | ⟨r, timedOut, R, -, hR, rfl⟩ |
    ⟨n, -, -, -, rfl⟩ | ⟨leader, kept, log, -, -, rfl, -⟩
  · exact h.receive hth rpc
  · refine h.step hx hf ?_
    intro hlooks p hp
    simp only [ShardService.homed, hx, hlooks, hp] at hhomed
    simpa using hhomed
  · exact h.apply hR
  · exact ⟨h.replica, h.pending, h.shape, h.held⟩
  · exact ⟨h.replica, h.pending, h.shape, h.held⟩

/-- **A request works only on the local transaction that was begun for it** on the
replica that serves it, in every run in which what is found pending was begun there. -/
theorem handler_works_on_own_txn {acts : List Action}
    (hC : shard.Meets (fun s a => s.homed a = true) shard.init acts)
    (h : shard.run acts = some s) {x : Handler} (hx : s.handlers th = some x) {l : TxnId}
    (hl : x.pc.held = some l) : (s.replicas x.replica).begunFor l = some x.rpc.raftTxnId := by
  have howned : Owned s := Machine.inv_run_of_meets (I := Owned) Owned.init
    (fun _ _ _ hI hhomed hstep => hI.next hhomed hstep) hC h
  exact howned.held th x hx l hl

end Runs

/-- A request, and the steps of its handler, none of them timing out. -/
def rpcOf (th : ThreadId) (rpc : Rpc) (steps : ℕ) : List Action :=
  .receive th rpc :: List.replicate steps (.step th false)

/-- A transaction is begun and the handler of a write has found it. -/
def beginThenWrite : List Action :=
  [.elect (some 0) 0] ++ rpcOf 0 (.execute 10 (.begin 1)) 5 ++
    rpcOf 0 (.execute 10 (.write 7 [1] [5])) 1

theorem handler_works_on_own_txn_beginThenWrite :
    ∃ s x, shard.run beginThenWrite = some s ∧ s.handlers 0 = some x ∧ x.pc.held = some 1 ∧
      (s.replicas x.replica).begunFor 1 = some x.rpc.raftTxnId := by
  obtain ⟨s, hs, x, hx, hheld⟩ : ∃ s, shard.run beginThenWrite = some s ∧ ∃ x,
      s.handlers 0 = some x ∧ x.pc.held = some 1 := by decide +kernel
  exact ⟨s, x, hs, hx, hheld, handler_works_on_own_txn (by decide +kernel) hs hx hheld⟩

/-- A transaction is begun on replica 0; under the next leader another one is begun on
replica 1 and gets the same local number. -/
def beginOnTwoLeaders : List Action :=
  [.elect (some 0) 0] ++ rpcOf 0 (.execute 10 (.begin 1)) 5 ++
    [.elect (some 1) 0] ++ rpcOf 0 (.execute 20 (.begin 2)) 5 ++
    rpcOf 0 (.execute 10 (.write 7 [1] [5])) 3

/-- **A write can reach another transaction**: the write of transaction 10 is buffered in
the local transaction of transaction 20. -/
theorem write_reaches_other_txn :
    ∃ s, shard.run beginOnTwoLeaders = some s ∧ (s.replicas 1).begunFor 1 = some 20 ∧
      ((s.replicas 1).mgr.txns 1).map Transaction.writeSet = some [⟨7, [1], [5], false⟩] ∧
      .answered 0 (.execute 10 (.write 7 [1] [5])) (.execute true .ok "" [] []) ∈ s.history := by
  decide +kernel

end TransDb.Shard
