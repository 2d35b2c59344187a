import TransDb.Coordinator.Coordinator

/-!
# What the code of the coordinator may do

Two sets of rules, one for the operations of clients and one for `Recover`: when a record
may be written, when a timestamp may be drawn and what may be sent to the shards.  The code
keeps to them, whatever the answers are.

* `Sides` — the records of a transaction have one on the commit side, or on the abort side.
* `VoteMap`, `isPromise`, `Voted` — which shards have promised to commit a transaction.
* `clientRules`, `recoveryRules` — the rules.  `strict` is for runs in which no append of an
  `ABORTING` record fails, and says which shards make promises in them; `fixed` is for runs in
  which `Recover` draws no timestamp.
* `safe_untilYes`, …, `safe_waitAll` — calls and futures, under any rules that allow them.
* `commit_safe`, `abort_safe`, `execute_safe`, `scan_safe` — **the operations of clients keep
  to the rules.**
-/

namespace TransDb.Coordinator

open Option List Storage Txn Raft Shard

/-! ## Records -/

/-- The decision that a record belongs to: commit (`true`) or abort. -/
def CoordinatorLogRecordType.side : CoordinatorLogRecordType → Option Bool
  | .preparing => none
  | .committing => some true
  | .committed => some true
  | .aborting => some false
  | .aborted => some false

/-- There is a record on this side. -/
def Sides (records : List CoordinatorLogRecord) (b : Bool) : Prop :=
  ∃ r ∈ records, r.type.side = some b

/-- There is a record of this type. -/
def Has (records : List CoordinatorLogRecord) (type : CoordinatorLogRecordType) : Prop :=
  ∃ r ∈ records, r.type = type

instance (records : List CoordinatorLogRecord) (type : CoordinatorLogRecordType) :
    Decidable (Has records type) :=
  inferInstanceAs (Decidable (∃ r ∈ records, r.type = type))

/-- The records of one transaction. -/
def recordsOf (records : List CoordinatorLogRecord) (T : RaftTxnId) : List CoordinatorLogRecord :=
  records.filter fun r => r.txnId = T

/-- The records are on one side at most. -/
def Consistent (records : List CoordinatorLogRecord) : Prop :=
  ∀ b, Sides records b → ¬ Sides records (!b)

section Records

variable {records : List CoordinatorLogRecord} {type : CoordinatorLogRecordType}
  {r : CoordinatorLogRecord} {T : RaftTxnId}

theorem Has.append (h : Has records type) (more : List CoordinatorLogRecord) :
    Has (records ++ more) type := by
  obtain ⟨r, hr, htype⟩ := h
  exact ⟨r, mem_append_left _ hr, htype⟩

theorem Has.sides (h : Has records type) {b : Bool} (hside : type.side = some b) :
    Sides records b := by
  obtain ⟨r, hr, rfl⟩ := h
  exact ⟨r, hr, hside⟩

theorem recordsOf_append_self (h : r.txnId = T) :
    recordsOf (records ++ [r]) T = recordsOf records T ++ [r] := by
  simp [recordsOf, filter_append, h]

theorem recordsOf_append_of_ne (h : r.txnId ≠ T) :
    recordsOf (records ++ [r]) T = recordsOf records T := by
  simp [recordsOf, filter_append, h]

theorem mem_recordsOf : r ∈ recordsOf records T ↔ r ∈ records ∧ r.txnId = T := by
  simp [recordsOf]

theorem Consistent.append (h : Consistent records)
    (hr : ∀ b, r.type.side = some b → ¬ Sides records (!b)) : Consistent (records ++ [r]) := by
  -- a side of the longer list is an old one or that of the new record
  have hcases : ∀ {b}, Sides (records ++ [r]) b → Sides records b ∨ r.type.side = some b := by
    rintro b ⟨r', hr', hside⟩
    rcases mem_append.mp hr' with hold | hnew
    · exact .inl ⟨r', hold, hside⟩
    · rw [mem_singleton.mp hnew] at hside
      exact .inr hside
  intro b hb hb'
  rcases hcases hb with hold | hnew
  · rcases hcases hb' with hold' | hnew'
    · exact h b hold hold'
    · exact hr _ hnew' (by rwa [Bool.not_not])
  · rcases hcases hb' with hold' | hnew'
    · exact hr b hnew hold'
    · rw [hnew] at hnew'
      cases b <;> cases hnew'

end Records

/-! ## Promises -/

/-- For every transaction the shards that promise to commit it. -/
abbrev VoteMap := RaftTxnId → ShardId → Bool

/-- The shard promises the transaction, if there are votes. -/
def promised (strict : Option VoteMap) (T : RaftTxnId) (shard : ShardId) : Bool :=
  strict.all fun votes => votes T shard

/-- The answer is a promise: a yes to `Prepare`, or that the transaction is prepared. -/
def isPromise : Rpc → Option Response → Bool
  | .prepare _ _, answer => isYes answer
  | .queryTxnState _, some (.txnState .prepared) => true
  | _, _ => false

/-- An answer that agrees with the votes. -/
def credible (strict : Option VoteMap) (shard : ShardId) (rpc : Rpc) (answer : Option Response) :
    Bool :=
  !isPromise rpc answer || promised strict rpc.raftTxnId shard

/-- All that were to be prepared promise the transaction. -/
def Voted (strict : Option VoteMap) (T : RaftTxnId) (records : List CoordinatorLogRecord) : Prop :=
  ∀ r ∈ records, r.type = .preparing → ∀ shard ∈ r.shards, promised strict T shard = true

section Promises

variable {strict : Option VoteMap} {T : RaftTxnId} {records : List CoordinatorLogRecord}
  {shard : ShardId}

theorem promised_of_credible {rpc : Rpc} {answer : Option Response}
    (h : credible strict shard rpc answer = true) (hp : isPromise rpc answer = true) :
    promised strict rpc.raftTxnId shard = true := by
  simpa [credible, hp] using h

theorem Voted.append (h : Voted strict T records) (hr : r.type ≠ .preparing) :
    Voted strict T (records ++ [r]) := by
  intro r' hr' htype
  rcases mem_append.mp hr' with hold | hnew
  · exact h r' hold htype
  · exact absurd (mem_singleton.mp hnew ▸ htype) hr

theorem voted_preparing {shards : List ShardId}
    (h : ∀ shard ∈ shards, promised strict T shard = true) :
    Voted strict T [⟨.preparing, T, shards⟩] := by
  intro r hr _
  rw [mem_singleton.mp hr]
  exact h

end Promises

/-! ## Rules -/

/-- The request that a future makes. -/
def Job.rpc : Job → Rpc
  | .prepare _ T ts => .prepare T ts
  | .commit _ T ts => .commit T ts
  | .abort _ T => .abort T
  | .abortOnce _ T => .abort T
  | .scan _ T range => .execute T (.scan range)

/-- The result agrees with the votes. -/
def Job.allows (strict : Option VoteMap) (job : Job) (r : JobResult) : Bool :=
  match job with
  | .prepare shard T _ => !r.voteCommit || promised strict T shard
  | _ => true

/-- What an operation knows of its transaction. -/
structure TxnView where
  txn : Option CoordinatorTxn
  /-- The commit timestamp that was drawn for it. -/
  ts : Option Timestamp
  records : List CoordinatorLogRecord
  /-- The futures that were started. -/
  jobs : List Job

section Rules

variable (strict : Option VoteMap) (fixed : Bool) (T : RaftTxnId)

/-- What an operation on the transaction may send. -/
def TxnView.MayCall (v : TxnView) : Rpc → Prop
  | .execute T' _ => T' = T
  | .prepare T' c => T' = T ∧ v.ts = some c
  | .commit T' c => T' = T ∧ v.ts = some c ∧ Has v.records .committing
  | .abort T' => T' = T ∧ (strict.isSome → Has v.records .aborting)
  | .queryTxnState _ => False

/-- The rules of a client's operation. -/
def clientRules : Rules TxnView Request Request.Answer where
  may v
    | .append r => r.txnId = T ∧
        (r.type = .preparing → r.shards ≠ [] ∧ v.records = [] ∧ v.ts ≠ none) ∧
        (r.type = .committing → Voted strict T v.records) ∧
        ∀ b, r.type.side = some b → ¬ Sides v.records (!b)
    | .now => v.ts = none ∧ v.txn ≠ none
    | .find T' => T' = T
    | .erase T' => T' = T
    | .take T' => T' = T
    | .addParticipant T' _ => T' = T
    | .call _ rpc => v.MayCall strict T rpc
    | .spawn job => v.MayCall strict T job.rpc
    | .replay => False
    | .orderTxns _ => False
    | _ => True
  after v
    | .append r, written =>
      if written = true then some { v with records := v.records ++ [r] }
      else if strict.isSome ∧ r.type = .aborting then none else some v
    | .now, ts => some { v with ts := some ts }
    | .find _, txn => if txn = v.txn then some v else none
    | .erase _, _ => some { v with txn := none }
    | .take _, txn => if txn = v.txn then some { v with txn := none } else none
    | .addParticipant _ shard, _ => some { v with
        txn := v.txn.map fun txn =>
          { txn with participantShards := txn.participantShards ++ [shard] } }
    | .orderShards shards, order => if order.Perm shards then some v else none
    | .call shard rpc, answer => if credible strict shard rpc answer then some v else none
    | .spawn job, k => if k = v.jobs.length then some { v with jobs := v.jobs ++ [job] } else none
    | .get k, r => if (v.jobs[k]?).all fun job => job.allows strict r then some v else none
    | _, _ => some v

/-- An operation that leaves the transaction in `txns_` has done nothing yet. -/
def TxnView.Fresh (v : TxnView) : Prop := v.txn ≠ none → v.ts = none ∧ v.records = []

/-- What `Recover` may send. -/
def CoordinatorLog.MayCall (v : CoordinatorLog) : Rpc → Prop
  | .commit T _ => fixed = false ∧ (strict.isSome → Has (recordsOf v.records T) .committing)
  | .abort T => strict.isSome → Has (recordsOf v.records T) .aborting
  | .queryTxnState _ => True
  | _ => False

/-- A shard that is said to have committed was told so. -/
def CoordinatorLog.trusts (v : CoordinatorLog) : Rpc → Option Response → Bool
  | .queryTxnState T, some (.txnState .committed) =>
    strict.isNone || decide (Has (recordsOf v.records T) .committing)
  | _, _ => true

/-- The rules of `Recover`. -/
def recoveryRules : Rules CoordinatorLog Request Request.Answer where
  may v
    | .append r => r.type ≠ .preparing ∧
        (r.type = .committing → Voted strict r.txnId (recordsOf v.records r.txnId)) ∧
        (∀ b, r.type.side = some b → ¬ Sides (recordsOf v.records r.txnId) (!b)) ∧
        Has (recordsOf v.records r.txnId) .preparing
    | .now => ∃ T, Has (recordsOf v.records T) .preparing
    | .call _ rpc => v.MayCall strict fixed rpc
    | .spawn job => v.MayCall strict fixed job.rpc
    | .find _ => False
    | .erase _ => False
    | .take _ => False
    | .addParticipant _ _ => False
    | _ => True
  after v
    | .append r, written => some (if written = true then { v with records := v.records ++ [r] } else v)
    | .flush, flushed => some (if flushed = true then { v with flushed := v.records.length } else v)
    | .replay, records => if records = v.records then some v else none
    | .now, _ => if fixed = true then none else some v
    | .orderTxns txns, order => if order.Perm txns then some v else none
    | .call shard rpc, answer =>
      if credible strict shard rpc answer && v.trusts strict rpc answer then some v else none
    | _, _ => some v

/-- What was prepared is decided. -/
def Decided (records : List CoordinatorLogRecord) (T : RaftTxnId) : Prop :=
  Has (recordsOf records T) .preparing →
    Has (recordsOf records T) .committed ∨ Has (recordsOf records T) .aborted

section After

variable {strict T} {v : TxnView}

@[simp] theorem clientRules_after_append (r : CoordinatorLogRecord) (written : Bool) :
    (clientRules strict T).after v (.append r) written =
      if written = true then some { v with records := v.records ++ [r] }
      else if strict.isSome ∧ r.type = .aborting then none else some v := rfl

@[simp] theorem clientRules_after_now (ts : Timestamp) :
    (clientRules strict T).after v .now ts = some { v with ts := some ts } := rfl

@[simp] theorem clientRules_after_find (T' : RaftTxnId) (txn : Option CoordinatorTxn) :
    (clientRules strict T).after v (.find T') txn = if txn = v.txn then some v else none := rfl

@[simp] theorem clientRules_after_erase (T' : RaftTxnId) (u : Unit) :
    (clientRules strict T).after v (.erase T') u = some { v with txn := none } := rfl

@[simp] theorem clientRules_after_take (T' : RaftTxnId) (txn : Option CoordinatorTxn) :
    (clientRules strict T).after v (.take T') txn =
      if txn = v.txn then some { v with txn := none } else none := rfl

@[simp] theorem clientRules_after_addParticipant (T' : RaftTxnId) (shard : ShardId) (u : Unit) :
    (clientRules strict T).after v (.addParticipant T' shard) u = some { v with
      txn := v.txn.map fun txn =>
        { txn with participantShards := txn.participantShards ++ [shard] } } := rfl

@[simp] theorem clientRules_after_orderShards (shards order : List ShardId) :
    (clientRules strict T).after v (.orderShards shards) order =
      if order.Perm shards then some v else none := rfl

@[simp] theorem clientRules_after_spawn (job : Job) (k : ℕ) :
    (clientRules strict T).after v (.spawn job) k =
      if k = v.jobs.length then some { v with jobs := v.jobs ++ [job] } else none := rfl

@[simp] theorem clientRules_after_get (k : ℕ) (r : JobResult) :
    (clientRules strict T).after v (.get k) r =
      if (v.jobs[k]?).all fun job => job.allows strict r then some v else none := rfl

end After

end Rules

/-! ## Code that changes nothing -/

section Still

variable {S : Type} {R : Rules S Request Request.Answer} {v : S} {shard : ShardId} {rpc : Rpc}
  {T : RaftTxnId} {cfg : Config} {fs : List ℕ} {Q : S → JobResult → Prop}

/-- The shard may have said yes. -/
def Yes (R : Rules S Request Request.Answer) (v : S) (shard : ShardId) (rpc : Rpc) : Prop :=
  ∃ answer, isYes answer = true ∧ R.after v (.call shard rpc) answer = some v

section

variable (he : R.Still v (.call shard rpc))
  (h : ∀ r, (r.voteCommit = true → Yes R v shard rpc) → Q v r)
include he h

theorem safe_untilYes (n : ℕ) (message : String) : (untilYes shard rpc n message).Safe R Q v := by
  induction n generalizing message with
  | zero => exact h _ (by rintro ⟨⟩)
  | succ n ih =>
    refine ⟨he.1, ?_⟩
    intro answer v' hv'
    obtain rfl := he.2 answer v' hv'
    dsimp only
    split_ifs with hyes
    · exact h _ fun _ => ⟨answer, hyes, hv'⟩
    · exact h _ (by rintro ⟨⟩)
    · exact ih _

theorem safe_callUntilYes : (callUntilYes cfg shard rpc).Safe R Q v := by
  unfold callUntilYes
  split_ifs
  · exact safe_untilYes he h _ _
  · exact h _ (by rintro ⟨⟩)

end

theorem safe_anyAnswer {Q : S → Option Response → Prop} (he : R.Still v (.call shard rpc))
    (h : ∀ r, (r ≠ none → R.after v (.call shard rpc) r = some v) → Q v r) (n : ℕ) :
    (anyAnswer shard rpc n).Safe R Q v := by
  induction n with
  | zero => exact h _ fun hne => absurd rfl hne
  | succ n ih =>
    refine ⟨he.1, ?_⟩
    intro answer v' hv'
    obtain rfl := he.2 answer v' hv'
    cases answer with
    | some r => exact h _ fun _ => hv'
    | none => exact ih

theorem safe_abortOnShard (he : R.Still v (.call shard (.abort T))) (h : ∀ r, Q v r) :
    (abortOnShard cfg shard T).Safe R Q v := by
  unfold abortOnShard
  split_ifs
  · exact Program.Safe.bind (safe_anyAnswer he (fun _ _ => h _) _)
  · exact h _

theorem safe_queryShardTxnState {Q : S → TxnStateCode → Prop}
    (he : R.Still v (.call shard (.queryTxnState T)))
    (h : ∀ state, (state ≠ .unknown →
      R.after v (.call shard (.queryTxnState T)) (some (.txnState state)) = some v) → Q v state) :
    (queryShardTxnState cfg shard T).Safe R Q v := by
  unfold queryShardTxnState
  split_ifs
  · refine Program.Safe.bind (safe_anyAnswer he ?_ _)
    intro answer hafter
    split
    · exact h _ fun _ => hafter (by simp)
    · exact h _ fun hne => absurd rfl hne
  · exact h _ fun hne => absurd rfl hne

theorem safe_executeWithLeaderRetry {Q : S → Status → Prop} {op : ExecuteOp}
    (he : R.Still v (.call shard (.execute T op))) (h : ∀ r, Q v r) :
    (executeWithLeaderRetry cfg shard T op).Safe R Q v := by
  have hloop : ∀ n, (executeAttempts shard T op n).Safe R Q v := by
    intro n
    induction n with
    | zero => exact h _
    | succ n ih =>
      refine Program.Safe.ask_still he ?_
      intro answer
      split
      · exact h _
      · split_ifs
        · exact ih
        · exact h _
      · exact ih
  unfold executeWithLeaderRetry
  split_ifs
  · exact hloop _
  · exact h _

theorem safe_spawnAll {Q : S → List ℕ → Prop} {job : ShardId → Job} {shards : List ShardId}
    (he : ∀ shard, R.Still v (.spawn (job shard))) (h : ∀ fs, Q v fs) :
    (spawnAll (shards.map job)).Safe R Q v := by
  induction shards generalizing Q with
  | nil => exact h _
  | cons shard shards ih =>
    simp only [map_cons, spawnAll, perform, Program.request_bind]
    refine Program.Safe.ask_still (he shard) ?_
    intro future
    exact Program.Safe.bind (ih fun fs => h _)

/-- If no future fails the test, all of them have returned something that passes it. -/
theorem safe_collect {Q : S → Option JobResult → Prop} {test : JobResult → Bool}
    (he : ∀ k, R.Still v (.get k))
    (h : ∀ failed, (failed = none → ∀ k ∈ fs, ∃ r, test r = true ∧
      R.after v (.get k) r = some v) → Q v failed) : (collect test fs).Safe R Q v := by
  induction fs with
  | nil => exact h _ (by simp)
  | cons f fs ih =>
    simp only [collect, perform, Program.request_bind]
    refine ⟨(he f).1, ?_⟩
    intro r v' hv'
    obtain rfl := (he f).2 r v' hv'
    dsimp only
    split_ifs with htest
    · exact ih fun failed hall => h failed fun hnone =>
        forall_mem_cons.mpr ⟨⟨r, htest, hv'⟩, hall hnone⟩
    · exact h _ (by rintro ⟨⟩)

theorem safe_waitAll {Q : S → Unit → Prop} (he : ∀ k, R.Still v (.get k)) (h : Q v ()) :
    (waitAll fs).Safe R Q v := by
  induction fs with
  | nil => exact h
  | cons f fs ih => exact Program.Safe.ask_still (he f) fun _ => ih

end Still

/-! ## Operations of clients -/

section Client

variable {strict : Option VoteMap} {T : RaftTxnId} {shard : ShardId} {v : TxnView} {α : Type}
  {Q : TxnView → α → Prop}

theorem client_still_flush : (clientRules strict T).Still v .flush :=
  ⟨trivial, fun _ _ h => (some.inj h).symm⟩

theorem client_still_get (k : ℕ) : (clientRules strict T).Still v (.get k) :=
  ⟨trivial, fun _ _ h => (some.inj (ite_none_right_eq_some.mp h).2).symm⟩

theorem client_still_join : (clientRules strict T).Still v .join :=
  ⟨trivial, fun _ _ h => (some.inj h).symm⟩

theorem client_still_call {shard : ShardId} {rpc : Rpc} (h : v.MayCall strict T rpc) :
    (clientRules strict T).Still v (.call shard rpc) :=
  ⟨h, fun _ _ h => (some.inj (ite_none_right_eq_some.mp h).2).symm⟩

theorem promised_of_yes {ts : Timestamp} (h : Yes (clientRules strict T) v shard (.prepare T ts)) :
    promised strict T shard = true := by
  obtain ⟨answer, hyes, hafter⟩ := h
  exact promised_of_credible (ite_none_right_eq_some.mp hafter).1 hyes

/-- The futures that are started are among the jobs. -/
theorem client_spawnAll {Q : TxnView → List ℕ → Prop} {job : ShardId → Job} {shards : List ShardId}
    (hmay : ∀ shard, v.MayCall strict T (job shard).rpc)
    (h : ∀ jobs fs, v.jobs <+: jobs →
      (∀ shard ∈ shards, ∃ k ∈ fs, jobs[k]? = some (job shard)) → Q { v with jobs := jobs } fs) :
    (spawnAll (shards.map job)).Safe (clientRules strict T) Q v := by
  induction shards generalizing v Q with
  | nil => exact h v.jobs [] (prefix_refl _) (by simp)
  | cons shard shards ih =>
    simp only [map_cons, spawnAll, perform, Program.request_bind]
    refine ⟨hmay shard, ?_⟩
    intro k v' hv'
    obtain ⟨rfl, heq⟩ := ite_none_right_eq_some.mp hv'
    cases heq
    refine Program.Safe.bind (ih hmay fun jobs fs hjobs hfs => ?_)
    refine h jobs _ ((prefix_append _ _).trans hjobs) (forall_mem_cons.mpr ⟨?_, ?_⟩)
    · obtain ⟨more, rfl⟩ := hjobs
      exact ⟨_, mem_cons_self, by simp⟩
    · intro shard' hshard'
      obtain ⟨k, hk, hjob⟩ := hfs shard' hshard'
      exact ⟨k, mem_cons_of_mem _ hk, hjob⟩

variable {k : Bool → Code α}

/-- A record of the transaction; a strict run does not see an `ABORTING` that fails. -/
theorem client_append (hmay : (clientRules strict T).may v (.append r))
    (htrue : (k true).Safe (clientRules strict T) Q { v with records := v.records ++ [r] })
    (hfalse : ¬ (strict.isSome ∧ r.type = .aborting) → (k false).Safe (clientRules strict T) Q v) :
    Program.Safe (clientRules strict T) Q (.ask (.append r) k) v := by
  refine ⟨hmay, ?_⟩
  intro written v' hv'
  cases written with
  | true =>
    cases hv'
    exact htrue
  | false =>
    simp only [clientRules_after_append, Bool.false_eq_true, if_false] at hv'
    split_ifs at hv' with hstrict
    cases hv'
    exact hfalse hstrict

variable {shards : List ShardId} {ts : Timestamp}

/-- `PREPARING` is no decision. -/
theorem not_sides_preparing (b : Bool) : ¬ Sides [⟨.preparing, T, shards⟩] b := by
  rintro ⟨r, hr, hside⟩
  rw [mem_singleton.mp hr] at hside
  cases hside

/-- One more record on the side that is taken. -/
theorem not_sides_append
    {b : Bool} (h : ¬ Sides records b) (htype : type.side = some (!b)) (shards : List ShardId) :
    ¬ Sides (records ++ [⟨type, T, shards⟩]) b := by
  rintro ⟨r, hr, hside⟩
  rcases mem_append.mp hr with hold | hnew
  · exact h ⟨r, hold, hside⟩
  · rw [mem_singleton.mp hnew] at hside
    rw [htype] at hside
    cases b <;> cases hside

theorem has_append (records : List CoordinatorLogRecord) (r : CoordinatorLogRecord) :
    Has (records ++ [r]) r.type :=
  ⟨r, mem_append_right _ (mem_singleton.mpr rfl), rfl⟩

/-- `ABORTED` and a flush, after which anything may be returned. -/
theorem client_aborted (hside : ¬ Sides v.records true)
    (h : ∀ written v', v'.txn = v.txn → (k written).Safe (clientRules strict T) Q v') :
    Program.Safe (clientRules strict T) Q (.ask (.append ⟨.aborted, T, []⟩) k) v := by
  refine client_append ⟨rfl, by simp, by simp, ?_⟩ (h _ _ rfl) fun _ => h _ _ rfl
  rintro b hb
  cases hb
  exact hside

/-- `ABORTING`; afterwards `Abort` may be sent. -/
theorem client_aborting (hside : ¬ Sides v.records true)
    (h : ∀ written v', v'.txn = v.txn → ¬ Sides v'.records true → v'.MayCall strict T (.abort T) →
      (k written).Safe (clientRules strict T) Q v') :
    Program.Safe (clientRules strict T) Q (.ask (.append ⟨.aborting, T, []⟩) k) v := by
  refine client_append ⟨rfl, by simp, by simp, ?_⟩ ?_ ?_
  · rintro b hb
    cases hb
    exact hside
  · exact h _ _ rfl (not_sides_append hside rfl _) ⟨rfl, fun _ => has_append _ _⟩
  · intro hstrict
    exact h _ _ rfl hside ⟨rfl, fun hs => absurd ⟨hs, rfl⟩ hstrict⟩

/-- `COMMITTING`; afterwards `Commit` may be sent. -/
theorem client_committing (hts : v.ts = some ts) (hside : ¬ Sides v.records false)
    (hvoted : Voted strict T v.records)
    (htrue : ∀ v', ¬ Sides v'.records false → v'.MayCall strict T (.commit T ts) →
      (k true).Safe (clientRules strict T) Q v')
    (hfalse : (k false).Safe (clientRules strict T) Q v) :
    Program.Safe (clientRules strict T) Q (.ask (.append ⟨.committing, T, []⟩) k) v := by
  refine client_append ⟨rfl, by simp, fun _ => hvoted, ?_⟩ ?_ fun _ => hfalse
  · rintro b hb
    cases hb
    exact hside
  · exact htrue _ (not_sides_append hside rfl _) ⟨rfl, hts, has_append _ _⟩

/-- The last steps of a commit. -/
theorem client_committed {Q : TxnView → Status → Prop} (hside : ¬ Sides v.records false)
    (h : ∀ v' st, Q v' st) :
    Program.Safe (clientRules strict T) Q (.ask (.append ⟨.committed, T, []⟩) fun written =>
      if (!written) = true then .ret Status.writeFailed
      else .ask .flush fun flushed =>
        if (!flushed) = true then .ret Status.flushFailed else .ret .ok) v := by
  refine client_append ⟨rfl, by simp, by simp, ?_⟩ ?_ fun _ => h _ _
  · rintro b hb
    cases hb
    exact hside
  · refine Program.Safe.ask_still client_still_flush fun flushed => ?_
    cases flushed <;> exact h _ _

/-- The first steps of a commit: `PREPARING`, and a flush. -/
theorem client_preparing {Q : TxnView → Status → Prop} {k : Code Status} (hshards : shards ≠ [])
    (hrecords : v.records = []) (hts : v.ts ≠ none) (h : ∀ v' st, Q v' st)
    (hk : ∀ v', v'.ts = v.ts → v'.records = [⟨.preparing, T, shards⟩] →
      k.Safe (clientRules strict T) Q v') :
    Program.Safe (clientRules strict T) Q (.ask (.append ⟨.preparing, T, shards⟩) fun written =>
      if (!written) = true then .ret Status.writeFailed
      else .ask .flush fun flushed => if (!flushed) = true then .ret Status.flushFailed else k) v := by
  refine client_append ⟨rfl, fun _ => ⟨hshards, hrecords, hts⟩, by simp,
    by simp [CoordinatorLogRecordType.side]⟩ ?_ fun _ => h _ _
  refine Program.Safe.ask_still client_still_flush fun flushed => ?_
  cases flushed with
  | false => exact h _ _
  | true =>
    refine hk _ rfl ?_
    rw [hrecords]
    rfl

theorem singleShardCommit_safe (cfg : Config) (shard : ShardId) (hts : v.ts = some ts)
    (hrecords : v.records = []) :
    (singleShardCommit cfg T shard ts).Safe (clientRules strict T) (fun _ _ => True) v := by
  simp only [singleShardCommit, appendWrite, perform, Program.request_bind, Program.pure_eq]
  refine client_preparing (by simp) hrecords (by simp [hts]) (fun _ _ => trivial) fun v1 hts1 hof => ?_
  have hnone : ∀ b, ¬ Sides v1.records b := hof ▸ not_sides_preparing
  refine Program.Safe.bind
    (safe_callUntilYes (client_still_call ⟨rfl, hts1.trans hts⟩) fun presp hyes => ?_)
  split_ifs with hok hno
  · trivial
  · refine client_aborting (hnone true) fun _ v2 _ hside hmay => ?_
    refine Program.Safe.bind (safe_abortOnShard (client_still_call hmay) fun _ => ?_)
    refine client_aborted hside fun _ v3 _ => ?_
    refine Program.Safe.ask_still client_still_flush fun flushed => ?_
    split_ifs <;> trivial
  · have hvoted : Voted strict T v1.records :=
      hof ▸ voted_preparing (by simpa using promised_of_yes (hyes (by simpa using hno)))
    refine client_committing (hts1.trans hts) (hnone false) hvoted (fun v2 hside hmay => ?_) trivial
    refine Program.Safe.bind (safe_callUntilYes (client_still_call hmay) fun cresp _ => ?_)
    split_ifs
    · trivial
    · exact client_committed hside fun _ _ => trivial

theorem twoPhaseCommit_safe {parts : List ShardId} (hparts : parts ≠ []) (hts : v.ts = some ts)
    (hrecords : v.records = []) :
    (twoPhaseCommit T parts ts).Safe (clientRules strict T) (fun _ _ => True) v := by
  simp only [twoPhaseCommit, appendWrite, perform, Program.request_bind, Program.pure_eq]
  refine client_preparing hparts hrecords (by simp [hts]) (fun _ _ => trivial) fun v1 hts1 hof => ?_
  have hnone : ∀ b, ¬ Sides v1.records b := hof ▸ not_sides_preparing
  refine Program.Safe.bind
    (client_spawnAll (fun _ => ⟨rfl, hts1.trans hts⟩) fun jobs prepFuts _ hjobs => ?_)
  refine Program.Safe.bind (safe_collect client_still_get fun refused hall => ?_)
  split_ifs with hrefused
  · refine client_aborting (hnone true) fun _ v2 _ hside hmay => ?_
    refine Program.Safe.bind (client_spawnAll (fun _ => hmay) fun jobs abortFuts _ _ => ?_)
    refine Program.Safe.bind (safe_waitAll client_still_get ?_)
    refine client_aborted hside fun _ v3 _ => ?_
    refine Program.Safe.ask_still client_still_flush fun flushed => ?_
    refine Program.Safe.ask_still client_still_join fun _ => ?_
    split_ifs <;> trivial
  · have hvoted : Voted strict T v1.records := by
      rw [hof]
      refine voted_preparing fun shard hshard => ?_
      obtain ⟨k, hk, hjob⟩ := hjobs shard hshard
      obtain ⟨r, hyes, hafter⟩ := hall (by simpa using hrefused) k hk
      have hallows := (ite_none_right_eq_some.mp hafter).1
      simpa [hjob, Job.allows, hyes] using hallows
    refine client_committing (hts1.trans hts) (hnone false) hvoted (fun v2 hside hmay => ?_) trivial
    refine Program.Safe.bind (client_spawnAll (fun _ => hmay) fun jobs commitFuts _ _ => ?_)
    refine Program.Safe.bind (safe_collect client_still_get fun failed _ => ?_)
    split_ifs
    · exact Program.Safe.ask_still client_still_join fun _ => trivial
    · exact client_committed hside fun _ _ => trivial

/-- `find` answers with the transaction. -/
theorem client_find {k : Option CoordinatorTxn → Code α}
    (h : (k v.txn).Safe (clientRules strict T) Q v) :
    Program.Safe (clientRules strict T) Q (.ask (.find T) k) v := by
  refine ⟨rfl, ?_⟩
  intro txn v' hv'
  obtain ⟨rfl, heq⟩ := ite_none_right_eq_some.mp hv'
  cases heq
  exact h

theorem client_orderShards {k : List ShardId → Code α}
    (h : ∀ order, order.Perm shards → (k order).Safe (clientRules strict T) Q v) :
    Program.Safe (clientRules strict T) Q (.ask (.orderShards shards) k) v := by
  refine ⟨trivial, ?_⟩
  intro order v' hv'
  obtain ⟨hperm, heq⟩ := ite_none_right_eq_some.mp hv'
  cases heq
  exact h order hperm

theorem client_erase {k : Unit → Code Status} (st : Status) (hk : k () = .ret st) :
    Program.Safe (clientRules strict T) (fun v _ => v.txn = none) (.ask (.erase T) k) v := by
  refine ⟨rfl, ?_⟩
  intro _ v' hv'
  cases hv'
  rw [show k _ = .ret st from hk]
  exact rfl

theorem commit_safe (cfg : Config) (h : v.Fresh) :
    (commit cfg T).Safe (clientRules strict T) (fun v _ => v.txn = none) v := by
  simp only [commit, perform, Program.request_bind, Program.pure_eq]
  refine client_find ?_
  cases htxn : v.txn with
  | none => exact htxn
  | some txn =>
    obtain ⟨hts, hrecords⟩ := h (by rw [htxn]; simp)
    dsimp only
    split_ifs with haborted hparts
    · exact client_erase _ rfl
    · exact client_erase _ rfl
    · refine client_orderShards fun parts hperm => ?_
      have hne : parts ≠ [] := fun hnil => hparts (by rw [hnil] at hperm; exact hperm.nil_eq.symm)
      refine ⟨⟨hts, by rw [htxn]; simp⟩, ?_⟩
      intro ts v1 hv1
      obtain ⟨hts1, hrecords1⟩ : v1.ts = some ts ∧ v1.records = [] := by
        cases hv1
        exact ⟨rfl, hrecords⟩
      have hend : ∀ v' st, True → Program.Safe (clientRules strict T) (fun v _ => v.txn = none)
          (.ask (.erase T) fun _ => .ret st) v' := fun v' st _ => client_erase st rfl
      dsimp only
      split
      · exact Program.Safe.bind ((singleShardCommit_safe cfg _ hts1 hrecords1).mono hend)
      · exact Program.Safe.bind ((twoPhaseCommit_safe hne hts1 hrecords1).mono hend)

/-- The second half of `AppendCoordinatorRecord`. -/
theorem client_flush_written {Q : TxnView → Status → Prop} (h : ∀ st, Q v st) (written : Bool) :
    Program.Safe (clientRules strict T) Q
      (if written = true then .ask .flush fun flushed =>
          if flushed = true then .ret .ok else .ret Status.flushFailed
        else .ret Status.writeFailed) v := by
  split_ifs
  · refine Program.Safe.ask_still client_still_flush fun flushed => ?_
    split_ifs <;> exact h _
  · exact h _

theorem abort_safe (h : v.Fresh) :
    (abort T).Safe (clientRules strict T) (fun v _ => v.Fresh) v := by
  simp only [abort, appendRecord, appendWrite, perform, Program.request_bind, Program.ask_bind,
    Program.pure_eq]
  refine ⟨rfl, ?_⟩
  intro txn v' hv'
  obtain ⟨rfl, heq⟩ := ite_none_right_eq_some.mp hv'
  cases heq
  cases htxn : v.txn with
  | none => exact fun hne => absurd rfl hne
  | some txn =>
    obtain ⟨-, hrecords⟩ := h (by rw [htxn]; simp)
    have hnone : ∀ b, ¬ Sides v.records b := by
      rw [hrecords]
      rintro b ⟨r, hr, -⟩
      cases hr
    -- the transaction stays erased
    have hend : ∀ {v' : TxnView}, v'.txn = none → v'.Fresh := fun hv' hne => absurd hv' hne
    dsimp only
    split_ifs
    · exact hend rfl
    · refine client_orderShards fun parts _ => ?_
      refine client_aborting (hnone true) fun written v1 htxn1 hside hmay => ?_
      refine Program.Safe.bind (client_flush_written (fun _ => ?_) written)
      refine Program.Safe.bind (client_spawnAll (fun _ => hmay) fun jobs futs _ _ => ?_)
      refine Program.Safe.bind (safe_waitAll client_still_get ?_)
      refine client_aborted hside fun written v2 htxn2 => ?_
      exact Program.Safe.bind
        (client_flush_written (fun _ => hend (htxn2.trans htxn1)) written)

/-- Reads and writes change the participants only. -/
theorem ensureShardParticipant_safe (cfg : Config) (txn : CoordinatorTxn) (shard : ShardId)
    {Q : TxnView → Status → Prop}
    (h : ∀ v' st, (v'.txn = none ↔ v.txn = none) → v'.ts = v.ts → v'.records = v.records → Q v' st) :
    (ensureShardParticipant cfg T txn shard).Safe (clientRules strict T) Q v := by
  unfold ensureShardParticipant
  split_ifs
  · exact h v _ Iff.rfl rfl rfl
  · refine Program.Safe.bind (safe_executeWithLeaderRetry (client_still_call rfl) fun st => ?_)
    dsimp only
    split_ifs
    · refine ⟨rfl, ?_⟩
      rintro _ v' ⟨⟩
      exact h _ _ (by simp) rfl rfl
    · exact h v _ Iff.rfl rfl rfl

theorem withTxn_safe {body : CoordinatorTxn → Code Status} (h : v.Fresh)
    (hbody : ∀ txn, (body txn).Safe (clientRules strict T) (fun v _ => v.Fresh) v) :
    (withTxn T body).Safe (clientRules strict T) (fun v _ => v.Fresh) v := by
  simp only [withTxn, perform, Program.request_bind, Program.pure_eq]
  refine client_find ?_
  cases v.txn with
  | none => exact h
  | some txn =>
    dsimp only
    split_ifs
    · exact h
    · exact hbody txn

theorem TxnView.Fresh.of_eq {v v' : TxnView} (h : v.Fresh) (htxn : v'.txn = none ↔ v.txn = none)
    (hts : v'.ts = v.ts) (hrecords : v'.records = v.records) : v'.Fresh := by
  intro hne
  rw [hts, hrecords]
  exact h fun hnone => hne (htxn.mpr hnone)

theorem execute_safe (cfg : Config) (key : Bytes) (op : ExecuteOp) (h : v.Fresh) :
    (execute cfg T key op).Safe (clientRules strict T) (fun v _ => v.Fresh) v := by
  refine withTxn_safe h fun txn => ?_
  refine Program.Safe.bind (ensureShardParticipant_safe cfg txn _ ?_)
  intro v1 st htxn hts hrecords
  have h1 := h.of_eq htxn hts hrecords
  split_ifs
  · exact safe_executeWithLeaderRetry (client_still_call rfl) fun _ => h1
  · exact h1

theorem scan_safe (cfg : Config) (range : ScanRange) (h : v.Fresh) :
    (scan cfg T range).Safe (clientRules strict T) (fun v _ => v.Fresh) v := by
  have hensure : ∀ (txn : CoordinatorTxn) (shards : List ShardId) (v : TxnView), v.Fresh →
      (ensureAll cfg T txn shards).Safe (clientRules strict T) (fun v _ => v.Fresh) v := by
    intro txn shards
    induction shards with
    | nil => exact fun v hv => hv
    | cons shard shards ih =>
      intro v hv
      refine Program.Safe.bind (ensureShardParticipant_safe cfg txn shard ?_)
      intro v1 st htxn hts hrecords
      have h1 := hv.of_eq htxn hts hrecords
      split_ifs
      · exact ih v1 h1
      · exact h1
  refine withTxn_safe h fun txn => ?_
  refine Program.Safe.bind ((hensure txn _ v h).mono fun v1 st h1 => ?_)
  split_ifs
  · refine Program.Safe.bind (client_spawnAll (fun _ => rfl) fun jobs futs _ _ => ?_)
    refine Program.Safe.bind (safe_collect client_still_get fun failed _ => ?_)
    refine Program.Safe.ask_still client_still_join fun _ => ?_
    cases failed <;> exact h1
  · exact h1

end Client

end TransDb.Coordinator
