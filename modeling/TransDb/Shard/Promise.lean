import TransDb.Shard.Stages

/-!
# A vote is a promise

Under one leader and with requests in order, the leader agrees with the log on every
transaction it has voted to commit: the local transaction is prepared with the writes of
the batch in the log until a decision is applied, and what a commit puts is these writes.

* `LogOrder` — the entries of the log come from requests in order.
* `Promises` — the invariant; `Promises.next` **keeps it**.
* `vote_is_promise` — **after a vote the local transaction stays prepared as it is**, and a
  commit applies exactly the writes that were prepared, in every such run.
* `late_write_breaks_vote` — a late write whose lock wait times out makes the leader abort
  the transaction that it has voted to commit.
-/

namespace TransDb.Shard

open Option Function Storage Txn Raft

/-! ## The log -/

/-- The entries of the log come from requests in order. -/
structure LogOrder (log : List RaftLogEntry) (h : List Event) : Prop where
  plain : ∀ i, (commandAt log i).plain = true
  one : OneBatch log
  batches : ∀ i b, commandAt log i = .prepareBatch b → prepareSeen h b.raftTxnId = true
  commits : ∀ i T ts, commandAt log i = .commit T ts → voted h T = true
  aborts : ∀ i j b, commandAt log i = .prepareBatch b → i < j →
    commandAt log j = .abort b.raftTxnId → abortedSince h b.raftTxnId = true
  ordered : ∀ i j b ts, commandAt log i = .prepareBatch b →
    commandAt log j = .commit b.raftTxnId ts → i < j

section Log

variable {log : List RaftLogEntry} {h : List Event} {T : RaftTxnId} {e : RaftLogEntry}

theorem LogOrder.noBatch (hl : LogOrder log h) (hT : prepareSeen h T = false) : NoBatch log T := by
  rintro i b hcmd rfl
  rw [hl.batches i b hcmd] at hT
  cases hT

/-- Something else happens. -/
theorem LogOrder.cons (hl : LogOrder log h) {ev : Event}
    (hev : ∀ i b, commandAt log i = .prepareBatch b →
      ev.receives (Rpc.isPrepare b.raftTxnId) = false) : LogOrder log (ev :: h) where
  plain := hl.plain
  one := hl.one
  batches := by
    intro i b hcmd
    rw [prepareSeen_cons, hl.batches i b hcmd, Bool.or_true]
  commits := by
    intro i T ts hcmd
    rw [voted_cons, hl.commits i T ts hcmd, Bool.or_true]
  aborts := by
    intro i j b hcmd hij habort
    exact abortedSince_cons_of_ne (hev i b hcmd) (hl.aborts i j b hcmd hij habort)
  ordered := hl.ordered

/-- An entry is proposed. -/
theorem LogOrder.append (hl : LogOrder log h) (hplain : e.command.plain = true)
    (hbatch : ∀ b, e.command = .prepareBatch b →
      NoBatch log b.raftTxnId ∧ prepareSeen h b.raftTxnId = true ∧ voted h b.raftTxnId = false)
    (hcommit : ∀ T ts, e.command = .commit T ts → voted h T = true)
    (habort : ∀ T, e.command = .abort T → prepareSeen h T = true → abortedSince h T = true) :
    LogOrder (log ++ [e]) h where
  plain := by
    intro i
    by_cases hskip : commandAt (log ++ [e]) i = .skip
    · rw [hskip]
      rfl
    · rcases commandAt_append_cases rfl hskip with ⟨hold, -⟩ | ⟨-, hnew⟩
      · rw [← hold]
        exact hl.plain i
      · rw [← hnew]
        exact hplain
  one := by
    intro i j b b' hi hj hT
    rcases commandAt_append_cases hi nofun with ⟨hold, -⟩ | ⟨rfl, hnew⟩ <;>
      rcases commandAt_append_cases hj nofun with ⟨hold', -⟩ | ⟨rfl, hnew'⟩
    · exact hl.one i j b b' hold hold' hT
    · exact absurd hT ((hbatch b' hnew').1 i b hold)
    · exact absurd hT.symm ((hbatch b hnew).1 j b' hold')
    · rfl
  batches := by
    intro i b hi
    rcases commandAt_append_cases hi nofun with ⟨hold, -⟩ | ⟨-, hnew⟩
    · exact hl.batches i b hold
    · exact (hbatch b hnew).2.1
  commits := by
    intro i T ts hi
    rcases commandAt_append_cases hi nofun with ⟨hold, -⟩ | ⟨-, hnew⟩
    · exact hl.commits i T ts hold
    · exact hcommit T ts hnew
  aborts := by
    intro i j b hi hij hj
    rcases commandAt_append_cases hj nofun with ⟨hold', hlt⟩ | ⟨rfl, hnew'⟩
    · rw [commandAt_append (Nat.lt_trans hij hlt)] at hi
      exact hl.aborts i j b hi hij hold'
    · rw [commandAt_append hij] at hi
      exact habort _ hnew' (hl.batches i b hi)
  ordered := by
    intro i j b ts hi hj
    rcases commandAt_append_cases hi nofun with ⟨hold, hlt⟩ | ⟨rfl, hnew⟩ <;>
      rcases commandAt_append_cases hj nofun with ⟨hold', -⟩ | ⟨rfl, hnew'⟩
    · exact hl.ordered i j b ts hold hold'
    · exact hlt
    · have hv := hl.commits j _ ts hold'
      rw [(hbatch b hnew).2.2] at hv
      cases hv
    · cases hnew.symm.trans hnew'

end Log

/-! ## The invariant -/

/-- **The invariant** of the votes. -/
structure Promises (s : ShardService) : Prop where
  owned : Owned s
  seq : Sequenced s
  onLog : ∀ r, OnLog s.log (s.replicas r)
  log : LogOrder s.log s.history
  unled : s.leader = none → ∀ T, voted s.history T = false
  stage : ∀ th x T c, s.handlers th = some x → x.rpc = .prepare T c →
    Stage s.log (s.replicas x.replica) x.replica T c x.pc
  promised : ∀ th T c m L, .answered th (.prepare T c) (.prepare true m) ∈ s.history →
    s.leader = some L → Promised s.log (s.replicas L) T c
  marked : ∀ T p, voted s.history T = true → s.pendingTxns T = some p → p.preparedReplicated = true
  aborting : ∀ th x, s.handlers th = some x → x.pc.abortsLocal = true →
    voted s.history x.rpc.raftTxnId = false
  adding : ∀ th x ts l, s.handlers th = some x → x.pc = .addPending ts l →
    MapOk (s.replicas x.replica) x.rpc.raftTxnId l
  mapped : ∀ T p L, s.leader = some L → s.pendingTxns T = some p → NoBatch s.log T →
    (∀ th x ts l, s.handlers th = some x → x.rpc.raftTxnId = T → x.pc ≠ .addPending ts l) →
    MapOk (s.replicas L) T p.localTxnId
  puts : ∀ L, s.leader = some L → PutsAgree s.log (s.replicas L)

theorem Promises.init : Promises .init where
  owned := Owned.init
  seq := Sequenced.init
  onLog := fun _ => OnLog.init _
  log := ⟨fun _ => rfl, fun _ _ _ _ h => (by cases h), fun _ _ h => (by cases h),
    fun _ _ _ h => (by cases h), fun _ _ _ h => (by cases h), fun _ _ _ _ h => (by cases h)⟩
  unled := fun _ _ => rfl
  stage := fun _ _ _ _ h => by cases h
  promised := fun _ _ _ _ _ h => by cases h
  marked := fun _ _ h => by cases h
  aborting := fun _ _ h => by cases h
  adding := fun _ _ _ _ h => by cases h
  mapped := fun _ _ _ h => by cases h
  puts := fun _ h => by cases h

variable {s : ShardService} {th : ThreadId} {x : Handler} {f : Effect} {timedOut : Bool}
  {T : RaftTxnId}

theorem Promises.seen (h : Promises s) (hx : s.handlers th = some x)
    (hp : x.rpc.isPrepare T = true) : prepareSeen s.history T = true :=
  prepareSeen_of_inProgress (h.seq.serving th x hx) hp

theorem Promises.standing (h : Promises s) (hv : voted s.history T = true)
    {L : ReplicaId} (hL : s.leader = some L) : Standing s.log (s.replicas L) T := by
  obtain ⟨th, c, m, hans⟩ := voted_iff.mp hv
  obtain ⟨i, b, -, -, hst⟩ := h.promised th T c m L hans hL
  exact hst

/-- A transaction that is being registered has no `Prepare`. -/
theorem Promises.unseen (h : Promises s) (hx : s.handlers th = some x) {ts : Timestamp} {l : TxnId}
    (hpc : x.pc = .addPending ts l) : prepareSeen s.history x.rpc.raftTxnId = false := by
  have hof := h.owned.shape th x hx
  rw [hpc] at hof
  exact h.seq.orderly.beginning (h.seq.serving th x hx) (Rpc.isBegin_iff.mpr ⟨ts, hof⟩)

/-- Nobody disturbs a transaction that another handler prepares or that has a vote. -/
theorem Promises.undisturbed (h : Promises s) (hx : s.handlers th = some x)
    (horder : s.inOrder (.step th timedOut) = true)
    (hT : (∃ j y, j ≠ th ∧ s.handlers j = some y ∧ y.rpc.isPrepare T = true) ∨
      voted s.history T = true) : x.rpc.raftTxnId = T → x.pc.disturbs = false := by
  rintro rfl
  by_contra hd
  have hserving := h.seq.serving th x hx
  have hseen : prepareSeen s.history x.rpc.raftTxnId = true := by
    rcases hT with ⟨j, y, -, hy, hp⟩ | hv
    · exact h.seen hy hp
    · exact (h.seq.orderly.over_of_voted hv).1
  rcases (h.owned.shape th x hx).disturbs_cases (by simpa using hd) with
    hbegin | ⟨l, e, hpc⟩ | hprepare | ⟨habort, hlocal⟩
  · rw [h.seq.orderly.beginning hserving hbegin] at hseen
    cases hseen
  · obtain ⟨rpc, r, pc⟩ := x
    cases (show pc = _ from hpc)
    simp only [ShardService.inOrder, hx, Bool.not_eq_true'] at horder
    rw [horder] at hseen
    cases hseen
  · rcases hT with ⟨j, y, hj, hy, hp⟩ | hv
    · exact hj (h.seq.orderly.prepares (h.seq.serving j y hy) hserving hp hprepare)
    · rw [(h.seq.orderly.over_of_voted hv).2 _ hserving] at hprepare
      cases hprepare
  · rcases hT with ⟨j, y, hj, hy, hp⟩ | hv
    · rw [h.seq.orderly.apart (h.seq.serving j y hy) hserving hp] at habort
      cases habort
    · rw [h.aborting th x hx hlocal] at hv
      cases hv

/-! ## Steps of handlers -/

section Handlers

variable {pc : Pc}

theorem ShardService.replica_after (s : ShardService) (th : ThreadId) (x : Handler) (f : Effect) :
    (s.after th x f).replicas x.replica = f.replica := update_self ..

/-- Only the last step of a `Prepare` votes. -/
theorem Steps.vote (h : Steps s x pc f) {m : String} (hn : f.next = .answer (.prepare true m)) :
    pc = .markPrepared ∧ f.replica = s.replicas x.replica ∧ f.log = s.log := by
  cases h with
  | marked => exact ⟨rfl, rfl, rfl⟩
  | @returned c next R' r _ hcall =>
    exfalso
    cases next with
    | answer =>
      have hn : Next.answer (Response.ofReply r) = .answer (.prepare true m) := hn
      unfold Response.ofReply at hn
      split_ifs at hn <;> cases hn
    | prepared ts p =>
      have hn : AfterCall.returned r (.prepared ts p) = .answer (.prepare true m) := hn
      unfold AfterCall.returned at hn
      split_ifs at hn
    | _ => cases hn
  | @notProposed type payload next => cases next <;> cases hn
  | @timedOut L ix next => cases next <;> cases hn
  | @committed L ix next => cases next <;> cases hn
  | _ => cases hn

theorem ShardService.voted_after
    (hv : voted (s.after th x f).history T = true) : voted s.history T = true ∨
      x.rpc.isPrepare T = true ∧ ∃ m, f.next = .answer (.prepare true m) := by
  rcases s.history_after th x f with heq | ⟨r, hn, heq⟩
  · rw [heq] at hv
    exact .inl hv
  · rw [heq, voted_cons, Bool.or_eq_true] at hv
    rcases hv with hv | hv
    · cases r with
      | prepare vote m =>
        cases vote with
        | true => exact .inr ⟨hv, m, hn⟩
        | false => cases hv
      | _ => cases hv
    · exact .inl hv

variable {p : PendingTxn} {j : ThreadId} {y : Handler} {c : Timestamp} {L : ReplicaId}

/-- The mark stays, until the transaction is begun again. -/
theorem Steps.marks (h : Steps s x pc f) (hp : f.pendingTxns T = some p) :
    (∃ p0, s.pendingTxns T = some p0 ∧ (p0.preparedReplicated = true → p.preparedReplicated = true) ∧
      (pc = .markPrepared → T = x.rpc.raftTxnId → p.preparedReplicated = true)) ∨
    (∃ ts l, pc = .addPending ts l) ∧ T = x.rpc.raftTxnId := by
  by_cases hT : T = x.rpc.raftTxnId
  · subst hT
    cases h with
    | addPending => exact .inr ⟨⟨_, _, rfl⟩, rfl⟩
    | marked =>
      simp only [update_self] at hp
      obtain ⟨p0, hp0, rfl⟩ := map_eq_some_iff.mp hp
      exact .inl ⟨p0, hp0, fun _ => rfl, fun _ _ => rfl⟩
    | erasedFailed | erasedAborted | finished =>
      simp only [update_self] at hp
      cases hp
    | _ => exact .inl ⟨p, hp, id, fun hpc => by cases hpc⟩
  · refine .inl ⟨p, ?_, id, fun _ hT' => absurd hT' hT⟩
    cases h with
    | addPending | marked | erasedFailed | erasedAborted | finished =>
      simp only [update_of_ne hT] at hp
      exact hp
    | _ => exact hp

section

variable (h : Promises s) (hx : s.handlers th = some x)
include h hx

/-- What is proposed. -/
theorem Promises.proposes {type : RaftEntryType} {payload : Bytes} {next : Proposal}
    (hpc : x.pc = .propose type payload next) (ix term : ℕ) :
    (∃ b, (RaftLogEntry.mk ix term type payload).command = .prepareBatch b ∧
      x.rpc.isPrepare b.raftTxnId = true ∧ NoBatch s.log b.raftTxnId) ∨
    (∃ T ts, (RaftLogEntry.mk ix term type payload).command = .commit T ts ∧
      x.rpc = .commit T ts) ∨
    ∃ T, (RaftLogEntry.mk ix term type payload).command = .abort T ∧ x.rpc.isAbort T = true := by
  have hof := h.owned.shape th x hx
  rw [hpc] at hof
  cases next with
  | prepareBatch p =>
    obtain ⟨ts, -, hrpc, rfl, -⟩ := hof
    have hstage := h.stage th x _ ts hx hrpc
    rw [hpc] at hstage
    obtain ⟨hno, ws, hfits, rfl, -⟩ := hstage
    exact .inl ⟨_, command_prepareBatch ix term _ _ ts hfits, Rpc.isPrepare_iff.mpr ⟨ts, hrpc⟩, hno⟩
  | commit =>
    obtain ⟨ts, hrpc, rfl, rfl⟩ := hof
    exact .inr (.inl ⟨_, ts, command_commit ix term _ ts, hrpc⟩)
  | abort =>
    obtain ⟨hrpc, rfl, rfl⟩ := hof
    exact .inr (.inr ⟨_, command_abort ix term _, Rpc.isAbort_iff.mpr hrpc⟩)

/-- The log is the same, or has one more entry that comes from the request. -/
theorem Promises.log_cases (hs : Steps s x x.pc f) :
    f.log = s.log ∨ ∃ e, f.log = s.log ++ [e] ∧ LogOrder (s.log ++ [e]) s.history ∧
      ∀ b, e.command = .prepareBatch b → x.rpc.isPrepare b.raftTxnId = true := by
  rcases hs.log_cases with hsame | ⟨type, payload, next, L, hpc, -, -, rfl⟩
  · exact .inl hsame
  refine .inr ⟨_, rfl, ?_⟩
  have hserving := h.seq.serving th x hx
  rcases h.proposes hx hpc (s.log.length + 1) s.term with
    ⟨b, hcmd, hprep, hno⟩ | ⟨T, ts, hcmd, hrpc⟩ | ⟨T, hcmd, habort⟩
  · refine ⟨h.log.append ?_ ?_ ?_ ?_, ?_⟩ <;> rw [hcmd]
    · rfl
    · rintro _ ⟨⟩
      refine ⟨hno, h.seen hx hprep, ?_⟩
      by_contra hv
      have hover := (h.seq.orderly.over_of_voted (by simpa using hv)).2 _ hserving
      rw [hprep] at hover
      cases hover
    · rintro _ _ ⟨⟩
    · rintro _ ⟨⟩
    · rintro _ ⟨⟩
      exact hprep
  · refine ⟨h.log.append ?_ ?_ ?_ ?_, ?_⟩ <;> rw [hcmd]
    · rfl
    · rintro _ ⟨⟩
    · rintro _ _ ⟨⟩
      rw [hrpc] at hserving
      exact h.seq.orderly.committing hserving
    · rintro _ ⟨⟩
    · rintro _ ⟨⟩
  · refine ⟨h.log.append ?_ ?_ ?_ ?_, ?_⟩ <;> rw [hcmd]
    · rfl
    · rintro _ ⟨⟩
    · rintro _ _ ⟨⟩
    · rintro _ ⟨⟩ hseen
      exact h.seq.orderly.since hserving habort hseen
    · rintro _ ⟨⟩

/-- What holds of the log holds after a step, if it holds with the entry of the request. -/
theorem Promises.log_after (hs : Steps s x x.pc f) {P : List RaftLogEntry → Prop} (hP : P s.log)
    (happend : ∀ e, LogOrder (s.log ++ [e]) s.history →
      (∀ b, e.command = .prepareBatch b → x.rpc.isPrepare b.raftTxnId = true) →
      P (s.log ++ [e])) : P f.log := by
  rcases h.log_cases hx hs with hsame | ⟨e, hlog, horder, he⟩
  · rw [hsame]
    exact hP
  · rw [hlog]
    exact happend e horder he

/-- The replicas after a step follow the log as it was. -/
theorem Promises.onLog_after (hs : Steps s x x.pc f) (r : ReplicaId) :
    OnLog s.log ((s.after th x f).replicas r) :=
  update_mono (P := OnLog s.log) (fun _ => hs.onLog (h.owned.shape th x hx)) (h.onLog r)

/-- A batch that is proposed for the transaction of another `Prepare`. -/
theorem Promises.batch_of_other (hj : j ≠ th) (hy : s.handlers j = some y)
    (hp : y.rpc.isPrepare T = true) {e : RaftLogEntry}
    (he : ∀ b, e.command = .prepareBatch b → x.rpc.isPrepare b.raftTxnId = true) (b : PrepareBatch)
    (hb : e.command = .prepareBatch b) : b.raftTxnId ≠ T := by
  rintro rfl
  exact hj (h.seq.orderly.prepares (h.seq.serving j y hy) (h.seq.serving th x hx) hp (he b hb))

theorem Promises.stage_after (hs : Steps s x x.pc f) (horder : s.inOrder (.step th timedOut) = true)
    (hy : (s.after th x f).handlers j = some y) (hrpc : y.rpc = .prepare T c) :
    Stage f.log ((s.after th x f).replicas y.replica) y.replica T c y.pc := by
  have hof := h.owned.shape th x hx
  obtain ⟨phase, hok⟩ := h.owned.replica x.replica
  rcases ShardService.handlers_after hy with ⟨rfl, pc', hn, rfl⟩ | ⟨hj, hy⟩
  · -- its own step
    have hprep : x.rpc.isPrepare T = true := Rpc.isPrepare_iff.mpr ⟨c, hrpc⟩
    have hleader := h.seq.leader_of hx fun T' hT' => by cases hrpc.symm.trans hT'
    rw [s.replica_after]
    refine Stage.own (h.stage j x T c hx hrpc) hrpc hs hof (h.onLog _) hleader ?_ ?_ hn
    · intro hno p hp
      refine h.mapped T p _ hleader hp hno ?_
      rintro k z ts l hz rfl hpc
      have hseen := h.seen hx hprep
      rw [h.unseen hz hpc] at hseen
      cases hseen
    · intro ts p t hpc ht
      obtain ⟨rpc, r, pc⟩ := x
      cases (show pc = _ from hpc)
      simp only [ShardService.inOrder, hx] at horder
      rw [show (s.replicas r).mgr.txns p.localTxnId = some t from ht] at horder
      exact of_decide_eq_true horder
  · have hprep : y.rpc.isPrepare T = true := Rpc.isPrepare_iff.mpr ⟨c, hrpc⟩
    have hstage := h.stage j y T c hy hrpc
    have hT : y.rpc.raftTxnId = T := by rw [hrpc]; rfl
    -- first the replica, then the log
    have hreplica : Stage s.log ((s.after th x f).replicas y.replica) y.replica T c y.pc := by
      refine update_mono (P := fun R => Stage s.log R y.replica T c y.pc) (fun hr hstage => ?_) hstage
      refine hstage.other hs hof (h.owned.held th x hx)
        (h.undisturbed hx horder (.inl ⟨j, y, hj, hy, hprep⟩)) hok
        (ShardService.callers_of_handler hx) ?_
      intro l hl
      rw [← hT, ← hr]
      exact h.owned.held j y hy l hl
    exact h.log_after hx hs (P := fun log => Stage log _ _ T c _) hreplica fun e _ he =>
      hreplica.append (h.onLog_after hx hs _) (h.batch_of_other hx hj hy hprep he)

theorem Promises.promised_after (hs : Steps s x x.pc f)
    (horder : s.inOrder (.step th timedOut) = true) {m : String}
    (hans : .answered j (.prepare T c) (.prepare true m) ∈ (s.after th x f).history)
    (hL : s.leader = some L) : Promised f.log ((s.after th x f).replicas L) T c := by
  have hof := h.owned.shape th x hx
  obtain ⟨phase, hok⟩ := h.owned.replica x.replica
  -- a vote that was there before
  have hold : .answered j (.prepare T c) (.prepare true m) ∈ s.history →
      Promised f.log ((s.after th x f).replicas L) T c := by
    intro hans
    have hpromised := h.promised j T c m L hans hL
    have hv : voted s.history T = true := voted_iff.mpr ⟨j, c, m, hans⟩
    have hreplica : Promised s.log ((s.after th x f).replicas L) T c := by
      refine update_mono (P := fun R => Promised s.log R T c) (fun _ hpromised => ?_) hpromised
      exact hpromised.other hs hof (h.owned.held th x hx) (h.undisturbed hx horder (.inr hv)) hok
        (ShardService.callers_of_handler hx)
    exact h.log_after hx hs (P := fun log => Promised log _ T c) hreplica fun e _ _ =>
      hreplica.append (h.onLog_after hx hs _) e
  rcases s.history_after th x f with heq | ⟨r, hn, heq⟩
  · rw [heq] at hans
    exact hold hans
  · rw [heq] at hans
    rcases List.mem_cons.mp hans with hnew | hans
    · -- the vote of this step
      injection hnew with hj hrpc hr
      rw [← hr] at hn
      obtain ⟨hpc, hreplica, hlog⟩ := hs.vote hn
      have hstage := h.stage th x T c hx hrpc.symm
      rw [hpc] at hstage
      obtain rfl : L = x.replica :=
        some.inj (hL.symm.trans (h.seq.leader_of hx fun T' hT' => by cases hrpc.trans hT'))
      rw [s.replica_after, hlog, hreplica]
      exact hstage
    · exact hold hans

theorem Promises.marked_after (hs : Steps s x x.pc f)
    (hv : voted (s.after th x f).history T = true) (hp : f.pendingTxns T = some p) :
    p.preparedReplicated = true := by
  rcases hs.marks hp with ⟨p0, hp0, hkeep, hmark⟩ | ⟨⟨ts, l, hpc⟩, rfl⟩
  · rcases ShardService.voted_after hv with hv | ⟨hprep, m, hn⟩
    · exact hkeep (h.marked T p0 hv hp0)
    · refine hmark (hs.vote hn).1 ?_
      obtain ⟨ts, hrpc⟩ := Rpc.isPrepare_iff.mp hprep
      rw [hrpc]
      rfl
  · -- a `BEGIN` that is served has no vote
    exfalso
    have hnot := h.unseen hx hpc
    rcases ShardService.voted_after hv with hv | ⟨hprep, -⟩
    · rw [(h.seq.orderly.over_of_voted hv).1] at hnot
      cases hnot
    · rw [h.seen hx hprep] at hnot
      cases hnot

end

/-- An `Abort` goes for the local transaction itself only if there is no mark. -/
theorem Steps.abortsLocal (hs : Steps s x pc f) {pc' : Pc} (hn : f.next = .goto pc')
    (hlocal : pc'.abortsLocal = true) : pc.abortsLocal = true ∨
      ∃ p, s.pendingTxns x.rpc.raftTxnId = some p ∧ p.preparedReplicated = false := by
  cases hs with
  | @more c c' next R' _ hcall =>
    cases hn
    cases next with
    | aborted => exact .inl rfl
    | _ => cases hlocal
  | @returned c next R' r _ hcall =>
    cases next with
    | aborted => exact .inl rfl
    | answer => cases hn
    | prepared ts p =>
      have hn : AfterCall.returned r (.prepared ts p) = .goto pc' := hn
      unfold AfterCall.returned at hn
      split_ifs at hn <;> (cases hn; cases hlocal)
    | _ =>
      cases hn
      cases hlocal
  | abortLocal hp hmark => exact .inr ⟨_, hp, hmark⟩
  | @notProposed type payload next | @timedOut L ix next =>
    cases next <;> (cases hn; try cases hlocal)
  | @committed L ix next =>
    cases next <;> (cases hn; cases hlocal)
  | register | lookMap | missing | packed | proposed | result | forgotten | abortLog | found | foundMap |
    prepareLocal =>
    cases hn
    cases hlocal
  | _ => cases hn

theorem Promises.aborting_after (h : Promises s) (hx : s.handlers th = some x)
    (hs : Steps s x x.pc f) (hy : (s.after th x f).handlers j = some y)
    (hlocal : y.pc.abortsLocal = true) :
    voted (s.after th x f).history y.rpc.raftTxnId = false := by
  by_contra hv
  have hv : voted (s.after th x f).history y.rpc.raftTxnId = true := by simpa using hv
  -- the request is an `Abort`
  have habort : ∀ {z : Handler}, z.pc.Of z.rpc → z.pc.abortsLocal = true →
      z.rpc.isAbort z.rpc.raftTxnId = true := by
    rintro ⟨rpc, r, pc⟩ hof hlocal
    refine Rpc.isAbort_iff.mpr ?_
    cases pc with
    | call c next =>
      cases next with
      | aborted =>
        obtain ⟨op, -, hop⟩ := hof
        exact hop.1
      | _ => cases hlocal
    | forget why =>
      cases why with
      | aborted => exact hof
      | _ => cases hlocal
    | _ => cases hlocal
  rcases ShardService.handlers_after hy with ⟨rfl, pc', hn, rfl⟩ | ⟨hj, hy⟩
  · have hsame : voted s.history x.rpc.raftTxnId = true := by
      rcases ShardService.voted_after hv with hv | ⟨-, m, hn'⟩
      · exact hv
      · rw [hn] at hn'
        cases hn'
    rcases hs.abortsLocal hn hlocal with hold | ⟨p, hp, hmark⟩
    · rw [h.aborting j x hx hold] at hsame
      cases hsame
    · rw [h.marked _ p hsame hp] at hmark
      cases hmark
  · have hyabort := habort (h.owned.shape j y hy) hlocal
    rcases ShardService.voted_after hv with hv | ⟨hprep, -⟩
    · rw [h.aborting j y hy hlocal] at hv
      cases hv
    · rw [h.seq.orderly.apart (h.seq.serving th x hx) (h.seq.serving j y hy) hprep] at hyabort
      cases hyabort

/-- The map after a step of a handler that does not register the transaction. -/
theorem Promises.mapOk_after (hs : Steps s x x.pc f) {l : TxnId} {r : ReplicaId}
    (hq : x.rpc.raftTxnId = T → ∀ ts l', x.pc ≠ .register ts l')
    (hmap : MapOk (s.replicas r) T l) : MapOk ((s.after th x f).replicas r) T l :=
  update_mono (P := fun R => MapOk R T l) (fun _ => hs.mapOk hq) hmap

section

variable (h : Promises s) (hx : s.handlers th = some x) (hs : Steps s x x.pc f)
include h hx hs

theorem Promises.adding_after {ts : Timestamp} {l : TxnId}
    (hy : (s.after th x f).handlers j = some y) (hpc : y.pc = .addPending ts l) :
    MapOk ((s.after th x f).replicas y.replica) y.rpc.raftTxnId l := by
  rcases ShardService.handlers_after hy with ⟨rfl, pc', hn, rfl⟩ | ⟨hj, hy⟩
  · rw [s.replica_after]
    obtain ⟨rpc, r, pc⟩ := x
    cases (show pc' = _ from hpc)
    cases hs with
    | register =>
      cases hn
      exact .inr (update_self ..)
    | @returned c next R' r _ hcall =>
      cases next with
      | prepared ts p =>
        have hn : AfterCall.returned r (.prepared ts p) = .goto _ := hn
        unfold AfterCall.returned at hn
        split_ifs at hn <;> cases hn
      | _ => cases hn
    | @notProposed type payload next => cases next <;> cases hn
    | @timedOut L ix next => cases next <;> cases hn
    | @committed L ix next => cases next <;> cases hn
    | _ => cases hn
  · refine Promises.mapOk_after hs ?_ (h.adding j y ts l hy hpc)
    -- only one `BEGIN` at a time
    intro hT ts' l' hpc'
    have hofx := h.owned.shape th x hx
    have hofy := h.owned.shape j y hy
    rw [hpc'] at hofx
    rw [hpc] at hofy
    have hbx : x.rpc.isBegin y.rpc.raftTxnId = true := Rpc.isBegin_iff.mpr ⟨ts', hT ▸ hofx⟩
    have hby : y.rpc.isBegin y.rpc.raftTxnId = true := Rpc.isBegin_iff.mpr ⟨ts, hofy⟩
    exact hj (h.seq.orderly.begins (h.seq.serving j y hy) (h.seq.serving th x hx) hby hbx)

theorem Promises.mapped_after (hL : s.leader = some L)
    (hp : f.pendingTxns T = some p) (hno : NoBatch s.log T)
    (hnone : ∀ j y ts l, (s.after th x f).handlers j = some y → y.rpc.raftTxnId = T →
      y.pc ≠ .addPending ts l) : MapOk ((s.after th x f).replicas L) T p.localTxnId := by
  have hregister : x.rpc.raftTxnId = T → ∀ ts l', x.pc ≠ .register ts l' := by
    -- it would go on to `addPending`
    intro hT ts l' hpc
    rw [hpc] at hs
    cases hs
    refine hnone th { x with pc := .addPending ts l' } ts l' ?_ hT rfl
    exact update_self ..
  by_cases hadd : x.rpc.raftTxnId = T ∧ ∃ ts l, x.pc = .addPending ts l
  · obtain ⟨rfl, ts, l, hpc⟩ := hadd
    obtain rfl : L = x.replica := by
      refine some.inj (hL.symm.trans (h.seq.leader_of hx fun T' hT' => ?_))
      have hof := h.owned.shape th x hx
      rw [hpc, hT'] at hof
      cases hof
    have hlocal : p.localTxnId = l := by
      rw [hpc] at hs
      cases hs
      simp only [update_self, some.injEq] at hp
      rw [← hp]
    rw [hlocal]
    exact Promises.mapOk_after hs hregister (h.adding th x ts l hx hpc)
  · refine Promises.mapOk_after hs hregister ?_
    rcases hs.pending hp with ⟨p0, hp0, hlocal, -⟩ | ⟨ts, hpc, rfl, -⟩
    · rw [← hlocal]
      refine h.mapped T p0 L hL hp0 hno ?_
      intro j y ts l hy hT hpc
      by_cases hj : j = th
      · subst hj
        cases hx.symm.trans hy
        exact hadd ⟨hT, ts, l, hpc⟩
      · refine hnone j y ts l ?_ hT hpc
        exact (update_of_ne hj ..).trans hy
    · exact absurd ⟨rfl, ts, _, hpc⟩ hadd

/-- **A step of a handler.** -/
theorem Promises.after (horder : s.inOrder (.step th timedOut) = true) :
    Promises (s.after th x f) := by
  have hof := h.owned.shape th x hx
  refine ⟨h.owned.step hx hs fun hlooks p hp => h.seq.homed hx hof hlooks hp, h.seq.after hx hof hs,
    ?_, ?_, ?_, fun j y T c hy hrpc => h.stage_after hx hs horder hy hrpc,
    fun j T c m L hans hL => h.promised_after hx hs horder hans hL,
    fun T p hv hp => h.marked_after hx hs hv hp,
    fun j y hy hlocal => h.aborting_after hx hs hy hlocal,
    fun j y ts l hy hpc => h.adding_after hx hs hy hpc, ?_, ?_⟩
  · intro r
    have hon := h.onLog_after hx hs r
    exact h.log_after hx hs (P := fun log => OnLog log _) hon fun e _ _ => hon.append e
  · have hlog : LogOrder f.log s.history :=
      h.log_after hx hs (P := fun log => LogOrder log s.history) h.log fun e horder _ => horder
    show LogOrder f.log _
    rcases s.history_after th x f with heq | ⟨r, -, heq⟩
    · rw [heq]
      exact hlog
    · rw [heq]
      exact hlog.cons fun _ _ _ => rfl
  · intro hnone T
    by_contra hv
    have hv : voted (s.after th x f).history T = true := by simpa using hv
    rcases ShardService.voted_after hv with hv | ⟨hprep, -⟩
    · rw [h.unled hnone T] at hv
      cases hv
    · have hL := h.seq.leader_of hx fun T' hT' => by rw [hT'] at hprep; cases hprep
      rw [show s.leader = none from hnone] at hL
      cases hL
  · intro T p L hL hp hno hnone
    refine h.mapped_after hx hs hL hp ?_ hnone
    refine h.log_after hx hs (P := fun log => NoBatch log T → NoBatch s.log T) id ?_ hno
    intro e _ _ hno i b hcmd
    refine hno i b ?_
    have hne : commandAt s.log i ≠ .skip := by rw [hcmd]; simp
    rw [commandAt_append (lt_of_commandAt hne)]
    exact hcmd
  · intro L hL
    have hputs : PutsAgree s.log ((s.after th x f).replicas L) := by
      refine update_mono (P := PutsAgree s.log) (fun _ hputs j hj => ?_) (h.puts L hL)
      rw [hs.frame.2]
      exact hputs j (hs.frame.1 ▸ hj)
    exact h.log_after hx hs (P := fun log => PutsAgree log _) hputs fun e _ _ =>
      hputs.append (h.onLog_after hx hs L) e

end

end Handlers

/-! ## Runs -/

theorem Rpc.entry_ne_addPending (rpc : Rpc) (ts : Timestamp) (l : TxnId) :
    rpc.entry ≠ .addPending ts l := by
  cases rpc with
  | execute T op => cases op <;> simp [Rpc.entry]
  | _ => simp [Rpc.entry]

theorem Rpc.entry_abortsLocal (rpc : Rpc) : rpc.entry.abortsLocal = false := by
  cases rpc with
  | execute T op => cases op <;> rfl
  | _ => rfl

/-- A request that comes in order is no second `Prepare`. -/
theorem LogOrder.received (hl : LogOrder s.log s.history) {rpc : Rpc}
    (hadm : admitted s.history rpc = true) (th : ThreadId) :
    LogOrder s.log (.received th rpc :: s.history) := by
  refine hl.cons ?_
  intro i b hcmd
  by_contra hp
  obtain ⟨ts, rfl⟩ := Rpc.isPrepare_iff.mp (Bool.not_eq_false _ ▸ hp)
  simp [admitted, hl.batches i b hcmd] at hadm

/-- Nobody is turned away with a vote. -/
theorem Response.noLeader_ne (rpc rpc' : Rpc) (m : String) (th th' : ThreadId) :
    Event.answered th rpc (.noLeader rpc) ≠ .answered th' rpc' (.prepare true m) := by
  intro h
  injection h with _ _ h
  cases rpc <;> cases h

theorem Promises.receive (h : Promises s) (hth : s.handlers th = none) {rpc : Rpc}
    (hadm : admitted s.history rpc = true) : Promises (s.receive th rpc) := by
  have howned := h.owned.receive hth rpc
  have hseq := h.seq.receive hth hadm
  have hlog := h.log.received hadm th
  rcases s.receive_cases th rpc with ⟨L, hL, heq⟩ | heq
  · rw [heq] at howned hseq ⊢
    refine ⟨howned, hseq, h.onLog, hlog, h.unled, ?_, ?_, h.marked, ?_, ?_, ?_, h.puts⟩
    · intro j y T c hy hrpc
      rcases ShardService.handlers_started hy with ⟨rfl, rfl⟩ | ⟨-, hy⟩
      · cases (show rpc = _ from hrpc)
        simp only [admitted, Bool.and_eq_true, Bool.not_eq_true'] at hadm
        exact h.log.noBatch hadm.1.1
      · exact h.stage j y T c hy hrpc
    · intro j T c m L' hans hL'
      rcases List.mem_cons.mp hans with hnew | hans
      · cases hnew
      · exact h.promised j T c m L' hans hL'
    · intro j y hy hlocal
      rcases ShardService.handlers_started hy with ⟨rfl, rfl⟩ | ⟨-, hy⟩
      · have hlocal : rpc.entry.abortsLocal = true := hlocal
        rw [rpc.entry_abortsLocal] at hlocal
        cases hlocal
      · exact h.aborting j y hy hlocal
    · intro j y ts l hy hpc
      rcases ShardService.handlers_started hy with ⟨rfl, rfl⟩ | ⟨-, hy⟩
      · exact absurd hpc (rpc.entry_ne_addPending ts l)
      · exact h.adding j y ts l hy hpc
    · intro T p L' hL' hp hno hnone
      refine h.mapped T p L' hL' hp hno ?_
      intro j y ts l hy hT
      exact hnone j y ts l (update_keeps hy (by simp [hth])) hT
  · rw [heq] at howned hseq ⊢
    have hvoted : ∀ T, voted (s.turnedAway th rpc).history T = voted s.history T := by
      intro T
      show voted (.answered th rpc (.noLeader rpc) :: .received th rpc :: s.history) T = _
      rw [voted_cons, voted_cons]
      cases rpc <;> rfl
    refine ⟨howned, hseq, h.onLog, hlog.cons fun _ _ _ => rfl, ?_, h.stage, ?_, ?_, ?_, h.adding,
      h.mapped, h.puts⟩
    · intro hnone T
      rw [hvoted]
      exact h.unled hnone T
    · intro j T c m L hans hL
      rcases List.mem_cons.mp hans with hnew | hans
      · exact absurd hnew.symm (Response.noLeader_ne _ _ _ _ _)
      · rcases List.mem_cons.mp hans with hnew | hans
        · cases hnew
        · exact h.promised j T c m L hans hL
    · intro T p hv
      rw [hvoted] at hv
      exact h.marked T p hv
    · intro j y hy hlocal
      rw [hvoted]
      exact h.aborting j y hy hlocal

/-- What the Raft thread of a replica does is a move on the log. -/
theorem ShardService.apply_move {r : ReplicaId} {R : Replica} (hs : s.apply r timedOut = some R)
    (hon : OnLog s.log (s.replicas r)) (hplain : ∀ i, (commandAt s.log i).plain = true) :
    RaftMove s.log (s.replicas r) R := by
  rcases ShardService.apply_cases hs with ⟨a, ha, hstep⟩ | ⟨e, hidle, -, he, rfl⟩
  · exact .step ha (ApplySteps.of hstep (hon.runs a ha).2 (hplain _))
  · exact .start hidle he

theorem Promises.apply (h : Promises s) {r : ReplicaId} {R : Replica}
    (hs : s.apply r timedOut = some R) :
    Promises { s with replicas := update s.replicas r R } := by
  have hmove := ShardService.apply_move hs (h.onLog r) h.log.plain
  obtain ⟨phase, hok⟩ := h.owned.replica r
  refine ⟨h.owned.apply hs, ⟨h.seq.orderly, h.seq.serving, h.seq.fresh, h.seq.leader, h.seq.home⟩,
    fun r' => update_mono (fun _ hon => hon.move hmove) (h.onLog r'), h.log, h.unled, ?_, ?_, h.marked,
    h.aborting, ?_, ?_, ?_⟩
  · intro j y T c hy hrpc
    refine update_mono (P := fun R' => Stage s.log R' y.replica T c y.pc) ?_ (h.stage j y T c hy hrpc)
    intro hr hstage
    refine hstage.move (h.onLog r) hok h.log.one ?_ hmove
    intro l hl
    have hheld := h.owned.held j y hy l hl
    rw [hr, hrpc] at hheld
    exact hheld
  · intro j T c m L hans hL
    refine update_mono (P := fun R' => Promised s.log R' T c) ?_ (h.promised j T c m L hans hL)
    exact fun _ hp => hp.move (h.onLog r) hok hmove
  · intro j y ts l hy hpc
    refine update_mono (P := fun R' => MapOk R' y.rpc.raftTxnId l) ?_ (h.adding j y ts l hy hpc)
    exact fun _ hmap => hmap.move (h.onLog r) (h.log.noBatch (h.unseen hy hpc) _) hmove
  · intro T p L hL hp hno hnone
    refine update_mono (P := fun R' => MapOk R' T p.localTxnId) ?_ (h.mapped T p L hL hp hno hnone)
    exact fun _ hmap => hmap.move (h.onLog r) (hno _) hmove
  · intro L hL
    refine update_mono (P := fun R' => PutsAgree s.log R') ?_ (h.puts L hL)
    rintro rfl hputs
    refine hputs.move (h.onLog L) hok ?_ hmove
    intro T ts hcmd
    exact h.standing (h.log.commits _ T ts hcmd) hL

/-- The election: before it there is nothing. -/
theorem Promises.elect (h : Promises s) (hterm : s.term = 0) {leader : Option ReplicaId}
    {log : List RaftLogEntry} (hlog : log = [] ∨ ∃ ix term, log = [⟨ix, term, .noop, []⟩])
    (hseq : Sequenced { s with leader := leader, term := s.term + 1, log := log }) :
    Promises { s with leader := leader, term := s.term + 1, log := log } := by
  obtain ⟨hleader, hempty⟩ := h.seq.fresh hterm
  have hskip : ∀ i, commandAt log i = .skip := by
    intro i
    rcases hlog with rfl | ⟨ix, term, rfl⟩
    · rfl
    · cases i <;> rfl
  have hquery : ∀ j y, s.handlers j = some y → ∃ T, y.rpc = .queryTxnState T := by
    intro j y hy
    rcases h.seq.leader j y hy with hL | hq
    · rw [hleader] at hL
      cases hL
    · exact hq
  have hvoted := h.unled hleader
  have hbound : ∀ r, (s.replicas r).lastApplied = 0 := by
    intro r
    have hb := (h.onLog r).bound
    rw [hempty] at hb
    exact Nat.le_zero.mp hb
  refine ⟨⟨h.owned.replica, h.owned.pending, h.owned.shape, h.owned.held⟩, hseq, ?_, ?_,
    fun _ => hvoted, ?_, ?_, h.marked, h.aborting, h.adding, ?_, ?_⟩
  · intro r
    have hon := h.onLog r
    rw [hempty] at hon
    rcases hlog with rfl | ⟨ix, term, rfl⟩
    · exact hon
    · exact hon.append _
  · refine ⟨fun i => ?_, fun i j b b' hi => ?_, fun i b hi => ?_, fun i T ts hi => ?_,
      fun i j b hi => ?_, fun i j b ts hi => ?_⟩
    · rw [hskip]
      rfl
    all_goals
      rw [hskip] at hi
      cases hi
  · intro j y T c hy hrpc
    obtain ⟨T', hq⟩ := hquery j y hy
    rw [hq] at hrpc
    cases hrpc
  · intro j T c m L hans _
    have hv := hvoted T
    rw [voted_iff.mpr ⟨j, c, m, hans⟩] at hv
    cases hv
  · intro T p L _ hp
    have hL := h.seq.home T p hp
    rw [hleader] at hL
    cases hL
  · intro L _ j hj
    rw [show (s.replicas L).lastApplied = 0 from hbound L] at hj
    cases hj

/-- **A step in order under one leader keeps the promises.** -/
theorem Promises.next (h : Promises s) {a : Action} {s' : ShardService}
    (hC : (s.fixedLeader a && s.inOrder a) = true) (hs : s.step a = some s') : Promises s' := by
  obtain ⟨hfixed, horder⟩ := (Bool.and_eq_true _ _).mp hC
  have hseq := h.seq.step h.owned hfixed horder hs
  rcases ShardService.step_cases hs with
    ⟨th, rpc, rfl, hth, rfl⟩ | ⟨th, timedOut, x, f, rfl, hx, hf, rfl⟩ |
    ⟨r, timedOut, R, -, hR, rfl⟩ | ⟨n, -, -, -, rfl⟩ | ⟨leader, kept, log, rfl, -, rfl, hlog⟩
  · exact h.receive hth horder
  · exact h.after hx hf horder
  · exact h.apply hR
  · exact ⟨⟨h.owned.replica, h.owned.pending, h.owned.shape, h.owned.held⟩, hseq, h.onLog, h.log,
      h.unled, h.stage, h.promised, h.marked, h.aborting, h.adding, h.mapped, h.puts⟩
  · have hterm : s.term = 0 := of_decide_eq_true hfixed
    refine h.elect hterm ?_ hseq
    rw [(h.seq.fresh hterm).2] at hlog
    simpa using hlog

theorem run_promises {acts : List Action}
    (hC : shard.Meets (fun s a => (s.fixedLeader a && s.inOrder a) = true) shard.init acts)
    (h : shard.run acts = some s) : Promises s :=
  Machine.inv_run_of_meets (I := Promises) Promises.init
    (fun _ _ _ hI hmeets hstep => hI.next hmeets hstep) hC h

/-- **A vote is a promise.**  After a vote to commit, and as long as no `Abort` is received,
the local transaction on the leader stays prepared with the writes of the one batch that the
log has for it, until a commit is applied; and that commit puts exactly these writes. -/
theorem vote_is_promise {acts : List Action}
    (hC : shard.Meets (fun s a => (s.fixedLeader a && s.inOrder a) = true) shard.init acts)
    (h : shard.run acts = some s) {T : RaftTxnId} {c : Timestamp} {m : String}
    (hvote : .answered th (.prepare T c) (.prepare true m) ∈ s.history)
    (hno : abortedSince s.history T = false) :
    ∃ L i b, s.leader = some L ∧ BatchAt s.log T c i b ∧ i < (s.replicas L).lastApplied ∧
      (∀ j b', commandAt s.log j = .prepareBatch b' → b'.raftTxnId = T → b' = b) ∧
      ((∀ j ts, j ≤ (s.replicas L).lastApplied → commandAt s.log j ≠ .commit T ts) →
        Agrees (s.replicas L) T (some b)) ∧
      ∀ j ts, j < (s.replicas L).lastApplied → commandAt s.log j = .commit T ts →
        (∀ j' ts', j' < j → commandAt s.log j' ≠ .commit T ts') →
        (s.replicas L).puts j = b.writes.map fun w => (ts, w) := by
  have hI := run_promises hC h
  have hv : voted s.history T = true := voted_iff.mpr ⟨th, c, m, hvote⟩
  obtain ⟨L, hL⟩ : ∃ L, s.leader = some L := by
    cases hL : s.leader with
    | some L => exact ⟨L, rfl⟩
    | none =>
      rw [hI.unled hL T] at hv
      cases hv
  obtain ⟨i, b, hb, hlt, hst⟩ := hI.promised th T c m L hvote hL
  obtain rfl := hb.txn
  -- no `Abort` has been proposed since
  have habort : ∀ j, i < j → commandAt s.log j ≠ .abort b.raftTxnId := by
    intro j hij hcmd
    rw [hI.log.aborts i j b hb.cmd hij hcmd] at hno
    cases hno
  have hbound := (hI.onLog L).bound
  have hopen : ∀ n, i < n → n ≤ s.log.length →
      (∀ j ts, j < n → commandAt s.log j ≠ .commit b.raftTxnId ts) →
      openBatches (s.log.take n) b.raftTxnId = some b :=
    fun n hin hn hcommit => hI.log.one.open_until hb.cmd hin hn
      fun j hij hj => ⟨fun ts => hcommit j ts hj, habort j hij⟩
  refine ⟨L, i, b, hL, hb, hlt, ?_, ?_, ?_⟩
  · intro j b' hcmd hT
    obtain rfl := hI.log.one j i b' b hcmd hb.cmd hT
    rw [hb.cmd] at hcmd
    exact (Command.prepareBatch.inj hcmd).symm
  · intro hcommit
    unfold Standing at hst
    rw [hopen _ hlt hbound fun j ts hj => hcommit j ts (Nat.le_of_lt hj)] at hst
    cases hst with
    | settled hagrees => exact hagrees
    | closing hrun =>
      -- a decision is being applied: it is neither a commit nor an abort
      exfalso
      obtain ⟨-, l, -, ⟨hcmd, -⟩ | ⟨ts, hcmd, -⟩⟩ := (hI.onLog L).runs _ hrun
      · exact habort _ hlt hcmd
      · exact hcommit _ ts le_rfl hcmd
  · intro j ts hj hcmd hfirst
    have hij := hI.log.ordered i j b ts hb.cmd hcmd
    have hjlen := Nat.le_of_lt (lt_of_lt_of_le hj hbound)
    rw [hI.puts L hL j hj, hcmd, putsOf, hopen j hij hjlen fun j' ts' hj' => hfirst j' ts' hj']

/-- The Raft thread goes on. -/
def applySteps (r : ReplicaId) (n : ℕ) : List Action := List.replicate n (.apply r false)

/-- The leader serves a `BEGIN`, a write and a `Prepare`, applies the batch and votes. -/
def preparesAndVotes : List Action :=
  rpcOf 0 (.execute 10 (.begin 1)) 5 ++ rpcOf 0 (.execute 10 (.write 7 [1] [5])) 3 ++
    rpcOf 0 (.prepare 10 2) 4 ++ [.advance 2] ++ applySteps 0 2 ++ List.replicate 3 (.step 0 false)

/-- The vote is followed by the commit, which is applied. -/
def votesThenCommits : List Action :=
  [.elect (some 0) 0, .advance 1] ++ applySteps 0 2 ++ preparesAndVotes ++
    rpcOf 0 (.commit 10 2) 1 ++ [.advance 3] ++ applySteps 0 7

theorem vote_is_promise_votesThenCommits :
    ∃ s L i b, shard.run votesThenCommits = some s ∧ s.leader = some L ∧ BatchAt s.log 10 2 i b ∧
      (s.replicas L).puts 2 = b.writes.map fun w => (2, w) := by
  obtain ⟨s, hs, hvote, hno, hL, hlast, h0, h1, h2⟩ : ∃ s, shard.run votesThenCommits = some s ∧
      .answered 0 (.prepare 10 2) (.prepare true "") ∈ s.history ∧
      abortedSince s.history 10 = false ∧ s.leader = some 0 ∧ (s.replicas 0).lastApplied = 3 ∧
      commandAt s.log 0 = .skip ∧
      commandAt s.log 1 = .prepareBatch ⟨10, 1, 2, [⟨7, [1], [5], false⟩]⟩ ∧
      commandAt s.log 2 = .commit 10 2 := by
    decide +kernel
  obtain ⟨L, i, b, hL', hb, -, -, -, hputs⟩ := vote_is_promise (by decide +kernel) hs hvote hno
  cases hL.symm.trans hL'
  refine ⟨s, 0, i, b, hs, hL, hb, hputs 2 2 (by rw [hlast]; decide) h2 ?_⟩
  intro j ts hj
  rcases Nat.lt_or_eq_of_le (Nat.lt_succ_iff.mp hj) with hj | rfl
  · obtain rfl := Nat.lt_one_iff.mp hj
    rw [h0]
    simp
  · rw [h1]
    simp

/-- Transaction 20 holds a lock.  After the vote for transaction 10 a late write of it waits
for that lock and times out; then the commit is served and applied. -/
def lateWriteTimesOut : List Action :=
  [.elect (some 0) 0, .advance 1] ++ applySteps 0 2 ++ rpcOf 1 (.execute 20 (.begin 1)) 5 ++
    rpcOf 1 (.execute 20 (.write 7 [2] [6])) 3 ++ preparesAndVotes ++
    rpcOf 1 (.execute 10 (.write 7 [2] [5])) 2 ++ [.step 1 true] ++ List.replicate 4 (.step 1 false) ++
    rpcOf 0 (.commit 10 2) 1 ++ [.advance 3] ++ applySteps 0 3

/-- **A late write can break a vote**: its lock wait times out and the prepared local
transaction is aborted, so that the commit puts nothing. -/
theorem late_write_breaks_vote :
    ∃ s, shard.run lateWriteTimesOut = some s ∧
      .answered 0 (.prepare 10 2) (.prepare true "") ∈ s.history ∧
      (∀ th, .received th (.abort 10) ∉ s.history) ∧ s.leader = some 0 ∧
      commandAt s.log 1 = .prepareBatch ⟨10, 1, 2, [⟨7, [1], [5], false⟩]⟩ ∧
      commandAt s.log 2 = .commit 10 2 ∧ (s.replicas 0).lastApplied = 3 ∧
      (s.replicas 0).mgr.txns 2 = none ∧ (s.replicas 0).puts 2 = [] := by
  obtain ⟨s, hs, hvote, hno, hL, h1, h2, hlast, hgone, hputs⟩ : ∃ s,
      shard.run lateWriteTimesOut = some s ∧
      .answered 0 (.prepare 10 2) (.prepare true "") ∈ s.history ∧
      (s.history.all fun e => !e.receives (Rpc.isAbort 10)) = true ∧ s.leader = some 0 ∧
      commandAt s.log 1 = .prepareBatch ⟨10, 1, 2, [⟨7, [1], [5], false⟩]⟩ ∧
      commandAt s.log 2 = .commit 10 2 ∧ (s.replicas 0).lastApplied = 3 ∧
      ((s.replicas 0).mgr.txns 2).isNone = true ∧ (s.replicas 0).puts 2 = [] := by
    decide +kernel
  refine ⟨s, hs, hvote, ?_, hL, h1, h2, hlast, isNone_iff_eq_none.mp hgone, hputs⟩
  intro th hmem
  have := List.all_eq_true.mp hno _ hmem
  simp [Event.receives, Rpc.isAbort] at this

end TransDb.Shard
