import TransDb.Coordinator.Coordinator
import TransDb.Shard.Served

/-!
# A coordinator and its shards

The coordinator runs the operations of its clients, one at a time for each transaction,
and sends requests to the shards.  Requests can be late or lost, answers too.  The
coordinator can crash at any point: what it had appended to its log but not flushed may be
lost, and it starts again with `Recover`.  Shards can restart as well.

* `Thread`, `Future`, `Proc` — an operation in progress and its futures.
* `Cluster` — coordinator, log file, requests under way, shards.
* `cluster` — the machine.  The first transaction id of a lifetime is a parameter; the
  source has 1 for all lifetimes.
* `Cluster.step_cases` — the steps of the machine.
* `Delivered` — **what the shards got was sent**, and the decisions in their logs too.
-/

namespace TransDb.Coordinator

open Option Function Storage Txn Raft Shard

/-! ## Operations in progress -/

/-- Code in execution, and the call that it waits for. -/
structure Thread (α : Type) where
  code : Code α
  waits : Option ThreadId

/-- A future and what it was started for. -/
structure Future where
  job : Job
  thread : Thread JobResult

/-- An operation: its own thread and the futures that it has started. -/
structure Proc where
  main : Thread Status
  futures : List Future

/-- The result of a thread that is through. -/
def Thread.result {α : Type} (x : Thread α) : Option α :=
  match x.code with
  | .ret a => some a
  | .ask _ _ => none

/-- An operation at its start. -/
def Proc.start (code : Code Status) : Proc := ⟨⟨code, none⟩, []⟩

/-- An operation of a client. -/
inductive ClientOp where
  | execute (key : Bytes) (op : ExecuteOp)
  | scan (range : ScanRange)
  | commit
  | abort
  deriving DecidableEq

/-- Its code. -/
def ClientOp.code (cfg : Config) (T : RaftTxnId) : ClientOp → Code Status
  | .execute key op => Coordinator.execute cfg T key op
  | .scan range => Coordinator.scan cfg T range
  | .commit => Coordinator.commit cfg T
  | .abort => Coordinator.abort T

/-- Whose operation it is. -/
inductive Who where
  | client (T : RaftTxnId)
  | recovery

/-! ## The cluster -/

/-- A request on its way. -/
structure Message where
  shard : ShardId
  call : ThreadId
  rpc : Rpc

/-- The coordinator is in its constructor, serves clients, or has failed to start. -/
inductive Life where
  | recovering (p : Proc)
  | up
  | down

/-- What is noted of a run. -/
inductive CoordEvent where
  | begun (T : RaftTxnId) (snapshotTs : Timestamp)
  /-- `Commit` has drawn its timestamp. -/
  | drew (T : RaftTxnId) (commitTs : Timestamp)
  | returned (T : RaftTxnId) (op : ClientOp) (status : Status)
  | recovered (status : Status)
  deriving DecidableEq

/-- The coordinator and its shards. -/
structure Cluster where
  life : Life
  nextTxnId : RaftTxnId
  /-- `ts_oracle_`. -/
  clock : Timestamp
  txns : RaftTxnId → Option CoordinatorTxn
  procs : RaftTxnId → Option (ClientOp × Proc)
  log : CoordinatorLog
  shards : ShardId → ShardService
  /-- The requests that have been sent and have not arrived. -/
  inflight : List Message
  nextCall : ThreadId
  lifetime : ℕ
  /-- All requests that have been sent. -/
  sent : List (ShardId × Rpc)
  /-- The parts of transactions that shards have aborted. -/
  aborts : List (ShardId × RaftTxnId)
  history : List CoordEvent

/-- What the surroundings decide: whether a request succeeds, and the order of an
unordered container. -/
inductive Input where
  | ok
  | fail
  | shards (order : List ShardId)
  | txns (order : List RaftTxnId)
  deriving DecidableEq

/-- What happens next. -/
inductive Action where
  | begin
  | start (T : RaftTxnId) (op : ClientOp)
  | main (who : Who) (i : Input)
  | future (who : Who) (k : ℕ) (i : Input)
  | finish (who : Who)
  /-- The coordinator crashes and starts again; `kept` records are left. -/
  | crash (kept : ℕ)
  | deliver (k : ℕ)
  | shard (shard : ShardId) (a : Shard.Action)
  | restartShard (shard : ShardId) (n : ℕ)

/-- The answer of a shard to a call. -/
def answerTo (s : ShardService) (call : ThreadId) (rpc : Rpc) : Option Response :=
  s.history.findSome? fun
    | .answered th rpc' r => if th = call ∧ rpc' = rpc then some r else none
    | _ => none

/-- The transaction that a step of a shard aborts: that of the local transaction whose `ABORT`
record is written. -/
def abortedBy (s : ShardService) : Shard.Action → Option RaftTxnId
  | .step th _ =>
    match s.handlers th with
    | some ⟨_, r, .call (.abortLog l _) _⟩ => (s.replicas r).begunFor l
    | _ => none
  | .apply r _ =>
    match (s.replicas r).applying with
    | some (.run _ (.abortLog l _) _) => (s.replicas r).begunFor l
    | _ => none
  | _ => none

namespace Cluster

/-- The coordinator starts. -/
def init (cfg : Config) (first : ℕ → RaftTxnId) : Cluster where
  life := .recovering (.start (recover cfg))
  nextTxnId := first 0
  clock := 1
  txns := fun _ => none
  procs := fun _ => none
  log := ⟨[], 0⟩
  shards := fun _ => .init
  inflight := []
  nextCall := 0
  lifetime := 0
  sent := []
  aborts := []
  history := []

/-- An operation in progress. -/
def proc (s : Cluster) : Who → Option Proc
  | .client T => (s.procs T).map Prod.snd
  | .recovery =>
    match s.life with
    | .recovering p => some p
    | _ => none

/-- An operation goes on. -/
def setProc (s : Cluster) (p : Proc) : Who → Cluster
  | .client T => { s with procs := update s.procs T ((s.procs T).map fun x => (x.1, p)) }
  | .recovery => { s with life := .recovering p }

/-- The event of a drawn timestamp. -/
def noteDraw (s : Cluster) : Who → List CoordEvent
  | .client T => .drew T s.clock :: s.history
  | .recovery => s.history

/-- What a request other than a call is answered, and what it changes. -/
def serve (cfg : Config) (s : Cluster) (who : Who) (fs : List Future) (i : Input) :
    (e : Request) → Option (e.Answer × Cluster × List Future)
  | .append r =>
    match i with
    | .ok => some (true, { s with log := { s.log with records := s.log.records ++ [r] } }, fs)
    | _ => some (false, s, fs)
  | .flush =>
    match i with
    | .ok => some (true, { s with log := { s.log with flushed := s.log.records.length } }, fs)
    | _ => some (false, s, fs)
  | .replay => some (s.log.records, s, fs)
  | .now => some (s.clock, { s with clock := s.clock + 1, history := s.noteDraw who }, fs)
  | .find T => some (s.txns T, s, fs)
  | .erase T => some ((), { s with txns := update s.txns T none }, fs)
  | .take T => some (s.txns T, { s with txns := update s.txns T none }, fs)
  | .addParticipant T shard =>
    some ((), { s with
      txns := update s.txns T ((s.txns T).map fun txn =>
        { txn with participantShards := txn.participantShards ++ [shard] }) }, fs)
  | .call _ _ => none
  | .spawn job => some (fs.length, s, fs ++ [⟨job, job.code cfg, none⟩])
  | .get k => ((fs[k]?).bind fun x => x.thread.result).map fun r => (r, s, fs)
  | .join => if fs.all fun x => x.thread.result.isSome then some ((), s, fs) else none
  | .orderShards shards =>
    match i with
    | .shards order => if order.Perm shards then some (order, s, fs) else none
    | _ => none
  | .orderTxns txns =>
    match i with
    | .txns order => if order.Perm txns then some (order, s, fs) else none
    | _ => none

/-- A request leaves the coordinator. -/
def sending (s : Cluster) (shard : ShardId) (rpc : Rpc) : Cluster :=
  { s with
    inflight := ⟨shard, s.nextCall, rpc⟩ :: s.inflight
    nextCall := s.nextCall + 1
    sent := (shard, rpc) :: s.sent }

/-- A call: the request is sent, and later there is an answer or the deadline passes. -/
def callStep {α : Type} (s : Cluster) (i : Input) (shard : ShardId) (rpc : Rpc)
    (next : Option Response → Code α) (x : Thread α) : Option (Cluster × Thread α) :=
  match x.waits with
  | none => some (s.sending shard rpc, { x with waits := some s.nextCall })
  | some call =>
    match i with
    | .ok => (answerTo (s.shards shard) call rpc).map fun r => (s, ⟨next (some r), none⟩)
    | _ => some (s, ⟨next none, none⟩)

/-- A step of the main thread of an operation. -/
def mainStep (cfg : Config) (s : Cluster) (who : Who) (i : Input) (p : Proc) : Option Cluster :=
  match p.main.code with
  | .ret _ => none
  | .ask (.call shard rpc) next =>
    (s.callStep i shard rpc next p.main).map fun out => out.1.setProc { p with main := out.2 } who
  | .ask e next =>
    (s.serve cfg who p.futures i e).map fun out => out.2.1.setProc ⟨⟨next out.1, none⟩, out.2.2⟩ who

/-- A step of a future. -/
def futureStep (s : Cluster) (who : Who) (k : ℕ) (i : Input) (p : Proc) : Option Cluster :=
  match p.futures[k]? with
  | none => none
  | some x =>
    match x.thread.code with
    | .ask (.call shard rpc) next =>
      (s.callStep i shard rpc next x.thread).map fun out =>
        out.1.setProc { p with futures := p.futures.set k ⟨x.job, out.2⟩ } who
    | _ => none

/-- An operation has returned. -/
def finish (s : Cluster) (st : Status) : Who → Cluster
  | .client T => { s with
      procs := update s.procs T none
      history := match s.procs T with
        | some (op, _) => .returned T op st :: s.history
        | none => s.history }
  | .recovery => { s with
      life := if st.code = .ok then .up else .down
      history := .recovered st :: s.history }

/-- `Begin`. -/
def begun (s : Cluster) : Cluster :=
  { s with
    nextTxnId := s.nextTxnId + 1
    clock := s.clock + 1
    txns := update s.txns s.nextTxnId (some ⟨s.clock, [], false⟩)
    history := .begun s.nextTxnId s.clock :: s.history }

/-- The transaction has been begun, now or in an earlier lifetime. -/
def hasBegun (s : Cluster) (T : RaftTxnId) : Bool :=
  s.history.any fun
    | .begun T' _ => decide (T' = T)
    | _ => false

/-- What a crash leaves. -/
def crashed (cfg : Config) (first : ℕ → RaftTxnId) (s : Cluster) (kept : ℕ) : Cluster :=
  { s with
    life := .recovering (.start (recover cfg))
    nextTxnId := first (s.lifetime + 1)
    clock := 1
    txns := fun _ => none
    procs := fun _ => none
    log := ⟨s.log.records.take kept, kept⟩
    lifetime := s.lifetime + 1 }

/-- A shard is changed. -/
def setShard (s : Cluster) (shard : ShardId) (x : ShardService) : Cluster :=
  { s with shards := update s.shards shard x }

/-- One turn. -/
def step (cfg : Config) (first : ℕ → RaftTxnId) (s : Cluster) : Action → Option Cluster
  | .begin =>
    match s.life with
    | .up => some s.begun
    | _ => none
  | .start T op =>
    match s.life with
    | .up =>
      if s.hasBegun T && (s.procs T).isNone then
        some { s with procs := update s.procs T (some (op, .start (op.code cfg T))) }
      else none
    | _ => none
  | .main who i => (s.proc who).bind (s.mainStep cfg who i)
  | .future who k i => (s.proc who).bind (s.futureStep who k i)
  | .finish who => ((s.proc who).bind fun p => p.main.result).map fun st => s.finish st who
  | .crash kept =>
    if s.log.flushed ≤ kept ∧ kept ≤ s.log.records.length then some (s.crashed cfg first kept)
    else none
  | .deliver k =>
    match s.inflight[k]? with
    | none => none
    | some m =>
      ((s.shards m.shard).step (.receive m.call m.rpc)).map fun x =>
        { s with inflight := s.inflight.eraseIdx k }.setShard m.shard x
  | .shard shard a =>
    match a with
    | .receive _ _ => none
    | a => ((s.shards shard).step a).map
        ({ s with aborts := (abortedBy (s.shards shard) a).toList.map (shard, ·) ++ s.aborts }.setShard
          shard)
  | .restartShard shard n => ((s.shards shard).restart n).map (s.setShard shard)

end Cluster

/-- The machine of a coordinator and its shards. -/
def cluster (cfg : Config) (first : ℕ → RaftTxnId) : Machine Cluster Action :=
  ⟨Cluster.init cfg first, Cluster.step cfg first⟩

/-! ## The steps -/

theorem Thread.code_of_result {α : Type} {x : Thread α} {a : α} (h : x.result = some a) :
    x.code = .ret a := by
  unfold Thread.result at h
  split at h
  · rename_i b hcode
    rw [hcode, some.inj h]
  · cases h

namespace Cluster

section Cases

variable {cfg : Config} {first : ℕ → RaftTxnId} {s s' : Cluster} {who : Who} {i : Input} {p : Proc}

theorem procs_of_proc {T : RaftTxnId} (h : s.proc (.client T) = some p) :
    ∃ op, s.procs T = some (op, p) := by
  obtain ⟨⟨op, q⟩, hproc, rfl⟩ := map_eq_some_iff.mp h
  exact ⟨op, hproc⟩

theorem mem_of_answerTo {x : ShardService} {call : ThreadId} {rpc : Rpc} {r : Response}
    (h : answerTo x call rpc = some r) : .answered call rpc r ∈ x.history := by
  obtain ⟨ev, hev, heq⟩ := List.exists_of_findSome?_eq_some h
  cases ev with
  | received => cases heq
  | answered =>
    obtain ⟨⟨rfl, rfl⟩, hr⟩ := ite_none_right_eq_some.mp heq
    exact some.inj hr ▸ hev

/-- A call is sent, or there is an answer or none. -/
theorem callStep_cases {α : Type} {shard : ShardId} {rpc : Rpc} {next : Option Response → Code α}
    {x : Thread α} {out : Cluster × Thread α} (h : s.callStep i shard rpc next x = some out) :
    (x.waits = none ∧ out = (s.sending shard rpc, { x with waits := some s.nextCall })) ∨
      ∃ call answer, x.waits = some call ∧ out = (s, ⟨next answer, none⟩) ∧
        ∀ r, answer = some r → .answered call rpc r ∈ (s.shards shard).history := by
  unfold callStep at h
  cases hx : x.waits with
  | none =>
    rw [hx] at h
    exact .inl ⟨rfl, (some.inj h).symm⟩
  | some call =>
    rw [hx] at h
    refine .inr ⟨call, ?_⟩
    cases i with
    | ok =>
      obtain ⟨r, hr, rfl⟩ := map_eq_some_iff.mp h
      exact ⟨some r, rfl, rfl, fun r' hr' => some.inj hr' ▸ mem_of_answerTo hr⟩
    | _ => exact ⟨none, rfl, (some.inj h).symm, by simp⟩

variable {fs fs' : List Future} {e : Request}

/-- What a request other than a call changes: the log, the clock, or an entry of `txns_`. -/
inductive Changes (s : Cluster) (who : Who) : Request → Cluster → Prop where
  | nothing (e : Request) : Changes s who e s
  | append (r : CoordinatorLogRecord) :
      Changes s who (.append r) { s with log := { s.log with records := s.log.records ++ [r] } }
  | flush : Changes s who .flush { s with log := { s.log with flushed := s.log.records.length } }
  | now : Changes s who .now { s with clock := s.clock + 1, history := s.noteDraw who }
  /-- No entry is new. -/
  | txns (e : Request) {T : RaftTxnId} {o : Option CoordinatorTxn}
      (ho : s.txns T = none → o = none) : Changes s who e { s with txns := update s.txns T o }

variable {a : e.Answer}

section

variable (h : s.serve cfg who fs i e = some (a, s', fs'))
include h

theorem serve_changes :
    Changes s who e s' ∧
      ∀ x ∈ fs', x ∈ fs ∨ ∃ job : Job, e = .spawn job ∧ x = ⟨job, job.code cfg, none⟩ := by
  have hsame : ∀ {t : Cluster} {b : e.Answer}, Changes s who e t →
      some (b, t, fs) = some (a, s', fs') → Changes s who e s' ∧ ∀ x ∈ fs',
        x ∈ fs ∨ ∃ job : Job, e = .spawn job ∧ x = ⟨job, job.code cfg, none⟩ := by
    rintro t b ht ⟨⟩
    exact ⟨ht, fun x hx => .inl hx⟩
  cases e <;> simp only [serve] at h
  case append =>
    split at h
    · exact hsame (.append _) h
    · exact hsame (.nothing _) h
  case flush =>
    split at h
    · exact hsame .flush h
    · exact hsame (.nothing _) h
  case orderShards | orderTxns =>
    split at h
    · exact hsame (.nothing _) (ite_none_right_eq_some.mp h).2
    · cases h
  case get =>
    obtain ⟨r, -, heq⟩ := map_eq_some_iff.mp h
    exact hsame (.nothing _) (congrArg some heq)
  case join => exact hsame (.nothing _) (ite_none_right_eq_some.mp h).2
  case call => cases h
  case now => exact hsame .now h
  case erase | take => exact hsame (.txns _ fun _ => rfl) h
  case addParticipant => exact hsame (.txns _ fun hnone => by rw [hnone]; rfl) h
  case spawn job =>
    cases h
    refine ⟨.nothing _, fun x hx => (List.mem_append.mp hx).imp_right fun hnew => ?_⟩
    exact ⟨job, rfl, List.mem_singleton.mp hnew⟩
  all_goals exact hsame (.nothing _) h

/-- Requests other than calls reach no shard. -/
theorem serve_frame :
    s'.inflight = s.inflight ∧ s'.sent = s.sent ∧ s'.shards = s.shards ∧ s'.life = s.life ∧
      s'.procs = s.procs ∧ s'.lifetime = s.lifetime ∧ s'.nextTxnId = s.nextTxnId := by
  cases (serve_changes h).1 <;> exact ⟨rfl, rfl, rfl, rfl, rfl, rfl, rfl⟩

/-- Only `now` moves the clock and is noted in the history. -/
theorem serve_history :
    (s'.history = s.history ∧ s'.clock = s.clock) ∨
      (e = .now ∧ s'.history = s.noteDraw who ∧ s'.clock = s.clock + 1) := by
  cases (serve_changes h).1 with
  | now => exact .inr ⟨rfl, rfl, rfl⟩
  | _ => exact .inl ⟨rfl, rfl⟩

/-- No request brings a transaction into `txns_`. -/
theorem serve_txns {T : RaftTxnId} (hT : s'.txns T ≠ none) : s.txns T ≠ none := by
  cases (serve_changes h).1 with
  | txns _ ho => exact fun hnone => hT (update_mono (P := (· = none)) (fun _ => ho) hnone)
  | _ => exact hT

end

/-- The main thread of an operation makes a call or another request. -/
theorem mainStep_cases (h : s.mainStep cfg who i p = some s') :
    (∃ shard rpc next out, p.main.code = .ask (.call shard rpc) next ∧
      s.callStep i shard rpc next p.main = some out ∧
      s' = out.1.setProc { p with main := out.2 } who) ∨
    ∃ e next a s1 fs, p.main.code = .ask e next ∧ s.serve cfg who p.futures i e = some (a, s1, fs) ∧
      s' = s1.setProc ⟨⟨next a, none⟩, fs⟩ who := by
  unfold mainStep at h
  cases hc : p.main.code with
  | ret st => simp [hc] at h
  | ask e next =>
    cases e with
    | call shard rpc =>
      simp only [hc] at h
      obtain ⟨out, hout, rfl⟩ := map_eq_some_iff.mp h
      exact .inl ⟨shard, rpc, next, out, rfl, hout, rfl⟩
    | _ =>
      simp only [hc] at h
      obtain ⟨⟨a, s1, fs⟩, hout, rfl⟩ := map_eq_some_iff.mp h
      exact .inr ⟨_, next, a, s1, fs, rfl, hout, rfl⟩

/-- A future makes a call. -/
theorem futureStep_cases {k : ℕ} (h : s.futureStep who k i p = some s') :
    ∃ x shard rpc next out, p.futures[k]? = some x ∧ x.thread.code = .ask (.call shard rpc) next ∧
      s.callStep i shard rpc next x.thread = some out ∧
      s' = out.1.setProc { p with futures := p.futures.set k ⟨x.job, out.2⟩ } who := by
  unfold futureStep at h
  cases hx : p.futures[k]? with
  | none => simp [hx] at h
  | some x =>
    simp only [hx] at h
    split at h
    · rename_i shard rpc next hcode
      obtain ⟨out, hout, rfl⟩ := map_eq_some_iff.mp h
      exact ⟨x, shard, rpc, next, out, rfl, hcode, hout, rfl⟩
    · cases h

/-- **The steps of the machine**: those of the coordinator, and those of one shard. -/
theorem step_cases {a : Action} (h : s.step cfg first a = some s') :
    (a = .begin ∧ s.life = .up ∧ s' = s.begun) ∨
    (∃ T op, a = .start T op ∧ s.life = .up ∧ s.hasBegun T = true ∧ s.procs T = none ∧
      s' = { s with procs := update s.procs T (some (op, .start (op.code cfg T))) }) ∨
    (∃ who i p, a = .main who i ∧ s.proc who = some p ∧ s.mainStep cfg who i p = some s') ∨
    (∃ who k i p, a = .future who k i ∧ s.proc who = some p ∧ s.futureStep who k i p = some s') ∨
    (∃ who p st, a = .finish who ∧ s.proc who = some p ∧ p.main.code = .ret st ∧
      s' = s.finish st who) ∨
    (∃ kept, a = .crash kept ∧ s.log.flushed ≤ kept ∧ kept ≤ s.log.records.length ∧
      s' = s.crashed cfg first kept) ∨
    (∃ k m x, a = .deliver k ∧ s.inflight[k]? = some m ∧
      (s.shards m.shard).step (.receive m.call m.rpc) = some x ∧
      s' = { s with inflight := s.inflight.eraseIdx k }.setShard m.shard x) ∨
    (∃ shard b x aborts, a = .shard shard b ∧ (∀ th rpc, b ≠ .receive th rpc) ∧
      (s.shards shard).step b = some x ∧ s' = { s with aborts := aborts }.setShard shard x) ∨
    ∃ shard n x, a = .restartShard shard n ∧ (s.shards shard).restart n = some x ∧
      s' = s.setShard shard x := by
  cases a with
  | begin =>
    refine .inl ?_
    simp only [step] at h
    split at h
    · rename_i hlife
      exact ⟨rfl, hlife, (some.inj h).symm⟩
    · cases h
  | start T op =>
    refine .inr (.inl ⟨T, op, rfl, ?_⟩)
    simp only [step] at h
    split at h
    · rename_i hlife
      obtain ⟨hguard, heq⟩ := ite_none_right_eq_some.mp h
      obtain ⟨hbegun, hnone⟩ := Bool.and_eq_true_iff.mp hguard
      exact ⟨hlife, hbegun, isNone_iff_eq_none.mp hnone, (some.inj heq).symm⟩
    · cases h
  | main who i =>
    obtain ⟨p, hp, hstep⟩ := bind_eq_some_iff.mp h
    exact .inr (.inr (.inl ⟨who, i, p, rfl, hp, hstep⟩))
  | future who k i =>
    obtain ⟨p, hp, hstep⟩ := bind_eq_some_iff.mp h
    exact .inr (.inr (.inr (.inl ⟨who, k, i, p, rfl, hp, hstep⟩)))
  | finish who =>
    obtain ⟨st, hst, rfl⟩ := map_eq_some_iff.mp h
    obtain ⟨p, hp, hres⟩ := bind_eq_some_iff.mp hst
    exact .inr (.inr (.inr (.inr (.inl ⟨who, p, st, rfl, hp, Thread.code_of_result hres, rfl⟩))))
  | crash kept =>
    obtain ⟨⟨hflushed, hkept⟩, heq⟩ := ite_none_right_eq_some.mp h
    exact .inr (.inr (.inr (.inr (.inr (.inl
      ⟨kept, rfl, hflushed, hkept, (some.inj heq).symm⟩)))))
  | deliver k =>
    refine .inr (.inr (.inr (.inr (.inr (.inr (.inl ⟨k, ?_⟩))))))
    simp only [step] at h
    split at h
    · cases h
    · rename_i m hm
      obtain ⟨x, hx, rfl⟩ := map_eq_some_iff.mp h
      exact ⟨m, x, rfl, hm, hx, rfl⟩
  | shard shard b =>
    refine .inr (.inr (.inr (.inr (.inr (.inr (.inr (.inl ⟨shard, b, ?_⟩)))))))
    simp only [step] at h
    split at h
    · cases h
    · rename_i hne
      obtain ⟨x, hx, rfl⟩ := map_eq_some_iff.mp h
      exact ⟨x, _, rfl, hne, hx, rfl⟩
  | restartShard shard n =>
    obtain ⟨x, hx, rfl⟩ := map_eq_some_iff.mp h
    exact .inr (.inr (.inr (.inr (.inr (.inr (.inr (.inr ⟨shard, n, x, rfl, hx, rfl⟩)))))))

end Cases

end Cluster

/-! ## What the shards got was sent -/

/-- The requests on their way and those that the shards have served were sent. -/
structure Delivered (s : Cluster) : Prop where
  inflight : ∀ m ∈ s.inflight, (m.shard, m.rpc) ∈ s.sent
  served : ∀ shard, Served (fun rpc => (shard, rpc) ∈ s.sent) (s.shards shard)

section Delivered

variable {cfg : Config} {first : ℕ → RaftTxnId} {s s' : Cluster}

theorem Delivered.init : Delivered (.init cfg first) where
  inflight := fun _ hm => by cases hm
  served := fun _ => .init _

section

variable (h : Delivered s)
include h

/-- The coordinator does something else. -/
theorem Delivered.of_eq (hinflight : s'.inflight = s.inflight)
    (hsent : s'.sent = s.sent) (hshards : s'.shards = s.shards) : Delivered s' := by
  refine ⟨?_, ?_⟩
  · rw [hinflight, hsent]
    exact h.inflight
  · rw [hsent, hshards]
    exact h.served

theorem Delivered.sending (shard : ShardId) (rpc : Rpc) :
    Delivered (s.sending shard rpc) where
  inflight := by
    intro m hm
    rcases List.mem_cons.mp hm with rfl | hold
    · exact List.mem_cons_self
    · exact List.mem_cons_of_mem _ (h.inflight m hold)
  served := fun j => (h.served j).mono fun _ hr => List.mem_cons_of_mem _ hr

theorem Delivered.setProc (p : Proc) (who : Who) : Delivered (s.setProc p who) := by
  cases who <;> exact h.of_eq rfl rfl rfl

theorem Delivered.setShard {shard : ShardId} {x : ShardService}
    (hx : Served (fun rpc => (shard, rpc) ∈ s.sent) x) : Delivered (s.setShard shard x) where
  inflight := h.inflight
  served := by
    intro j
    by_cases hj : j = shard
    · subst hj
      simpa [Cluster.setShard] using hx
    · simpa [Cluster.setShard, update_of_ne hj] using h.served j

theorem Delivered.callStep {α : Type} {i : Input} {shard : ShardId} {rpc : Rpc}
    {next : Option Response → Code α} {x : Thread α} {out : Cluster × Thread α}
    (hout : s.callStep i shard rpc next x = some out) : Delivered out.1 := by
  rcases Cluster.callStep_cases hout with ⟨-, rfl⟩ | ⟨call, answer, -, rfl, -⟩
  · exact h.sending shard rpc
  · exact h

/-- **A step of the cluster.** -/
theorem Delivered.step {a : Action} (hs : s.step cfg first a = some s') : Delivered s' := by
  rcases Cluster.step_cases hs with ⟨-, -, rfl⟩ | ⟨T, op, -, -, -, -, rfl⟩ | ⟨who, i, p, -, -, hm⟩ |
    ⟨who, k, i, p, -, -, hf⟩ | ⟨who, p, st, -, -, -, rfl⟩ | ⟨kept, -, -, -, rfl⟩ |
    ⟨k, m, x, -, hm, hx, rfl⟩ | ⟨shard, b, x, aborts, -, hb, hx, rfl⟩ | ⟨shard, n, x, -, hx, rfl⟩
  · exact h.of_eq rfl rfl rfl
  · exact h.of_eq rfl rfl rfl
  · rcases Cluster.mainStep_cases hm with ⟨shard, rpc, next, out, -, hout, rfl⟩ |
      ⟨e, next, a, s1, fs, -, hserve, rfl⟩
    · exact (h.callStep hout).setProc _ _
    · obtain ⟨hinflight, hsent, hshards, -⟩ := Cluster.serve_frame hserve
      exact (h.of_eq hinflight hsent hshards).setProc _ _
  · obtain ⟨x, shard, rpc, next, out, -, -, hout, rfl⟩ := Cluster.futureStep_cases hf
    exact (h.callStep hout).setProc _ _
  · cases who <;> exact h.of_eq rfl rfl rfl
  · exact h.of_eq rfl rfl rfl
  · have hsent := h.inflight m (List.mem_of_getElem? hm)
    have h1 : Delivered { s with inflight := s.inflight.eraseIdx k } :=
      ⟨fun m' hm' => h.inflight m' (List.mem_of_mem_eraseIdx hm'), h.served⟩
    refine h1.setShard ((h.served m.shard).step ?_ hx)
    rintro th rpc ⟨⟩
    exact hsent
  · have h1 : Delivered { s with aborts := aborts } := h.of_eq rfl rfl rfl
    exact h1.setShard ((h.served shard).step (fun th rpc hrpc => absurd hrpc (hb th rpc)) hx)
  · exact h.setShard ((h.served shard).restart hx)

end

end Delivered

end TransDb.Coordinator
