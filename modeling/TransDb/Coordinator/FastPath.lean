import TransDb.Coordinator.Coordinator

/-!
# The fast path for one shard

`SingleShardCommit` is meant to be `TwoPhaseCommit` with one participant.  Both are run
here against the same behaviour of the shard and of the log file.  With one participant
every future is waited for before the next one is started, so a run is a sequence.

* `Behaviour`, `run` — what the surroundings answer, and what a piece of code then sends,
  writes and returns.
* `prepareOnShard_voteCommit` — `PrepareOnShard` succeeds only with a commit vote.
* `FastPathAgrees` — the two do the same, and what is not committed is aborted.
* `fastPath_agrees_iff` — **they agree exactly if a shard that is asked votes to commit.**
* `singleShardCommit_forgets_abort` — without a commit vote nothing is aborted.
-/

namespace TransDb.Coordinator

open Storage Txn Raft Shard

/-! ## Runs -/

/-- What leaves the coordinator: the calls of shards and the records of the log. -/
inductive TraceEvent where
  | rpc (shard : ShardId) (rpc : Rpc)
  | record (r : CoordinatorLogRecord)
  deriving DecidableEq

/-- The answer to a request, which may depend on everything that was sent and written. -/
abbrev Behaviour := List TraceEvent → (e : Request) → e.Answer

/-- A failed append writes nothing. -/
def Request.trace : (e : Request) → e.Answer → List TraceEvent
  | .call shard rpc, _ => [.rpc shard rpc]
  | .append r, written => if written = true then [.record r] else []
  | _, _ => []

/-- Run the code of a future. -/
def runJob {α : Type} (env : Behaviour) : Code α → List TraceEvent → List TraceEvent × α
  | .ret a, tr => (tr, a)
  | .ask e next, tr => runJob env (next (env tr e)) (tr ++ e.trace (env tr e))

/-- Run code that starts futures; each runs when it is started. -/
def run {α : Type} (cfg : Config) (env : Behaviour) :
    Code α → List JobResult → List TraceEvent → List TraceEvent × α
  | .ret a, _, tr => (tr, a)
  | .ask (.spawn job) next, fs, tr =>
    let out := runJob env (job.code cfg) tr
    run cfg env (next fs.length) (fs ++ [out.2]) out.1
  | .ask (.get i) next, fs, tr => run cfg env (next (fs.getD i ⟨false, false, .ok⟩)) fs tr
  | .ask .join next, fs, tr => run cfg env (next ()) fs tr
  | .ask e next, fs, tr => run cfg env (next (env tr e)) fs (tr ++ e.trace (env tr e))

section Runs

variable {cfg : Config} {env : Behaviour} {shard : ShardId} {T : RaftTxnId} {ts : Timestamp}
  {tr : List TraceEvent} {fs : List JobResult} {α : Type}

/-- A call with retries that is followed by more code. -/
theorem run_untilYes (rpc : Rpc) (n : ℕ) (message : String) (k : JobResult → Code α)
    (tr : List TraceEvent) :
    run cfg env (untilYes shard rpc n message >>= k) fs tr =
      run cfg env (k (runJob env (untilYes shard rpc n message) tr).2) fs
        (runJob env (untilYes shard rpc n message) tr).1 := by
  induction n generalizing message tr with
  | zero => rfl
  | succ n ih =>
    simp only [untilYes, Program.ask_bind, run, runJob]
    split_ifs
    · rfl
    · rfl
    · exact ih ..

theorem run_callUntilYes (rpc : Rpc) (k : JobResult → Code α) :
    run cfg env (callUntilYes cfg shard rpc >>= k) fs tr =
      run cfg env (k (runJob env (callUntilYes cfg shard rpc) tr).2) fs
        (runJob env (callUntilYes cfg shard rpc) tr).1 := by
  unfold callUntilYes
  split_ifs
  · exact run_untilYes ..
  · rfl

theorem untilYes_voteCommit (rpc : Rpc) (n : ℕ) (message : String) (tr : List TraceEvent) :
    (runJob env (untilYes shard rpc n message) tr).2.voteCommit =
      (runJob env (untilYes shard rpc n message) tr).2.ok := by
  induction n generalizing message tr with
  | zero => rfl
  | succ n ih =>
    simp only [untilYes, runJob]
    split_ifs
    · rfl
    · rfl
    · exact ih ..

/-- `PrepareOnShard` succeeds just when the shard has voted to commit, so the test of the
vote that follows it in `SingleShardCommit` never fails. -/
theorem prepareOnShard_voteCommit :
    (runJob env (prepareOnShard cfg shard T ts) tr).2.voteCommit =
      (runJob env (prepareOnShard cfg shard T ts) tr).2.ok := by
  unfold prepareOnShard callUntilYes
  split_ifs
  · exact untilYes_voteCommit ..
  · rfl

theorem run_append (r : CoordinatorLogRecord) (k : Bool → Code α) :
    run cfg env (.ask (.append r) k) fs tr =
      if env tr (.append r) = true then run cfg env (k true) fs (tr ++ [.record r])
      else run cfg env (k false) fs tr := by
  simp only [run, Request.trace]
  cases env tr (.append r) <;> simp

theorem run_flush (k : Bool → Code α) :
    run cfg env (.ask .flush k) fs tr = run cfg env (k (env tr .flush)) fs tr := by
  simp only [run, Request.trace, List.append_nil]

/-- One future, waited for at once. -/
theorem run_collect_one (job : Job) (test : JobResult → Bool) (k : Option JobResult → Code α) :
    run cfg env (spawnAll [job] >>= fun futures => collect test futures >>= k) fs tr =
      run cfg env (k (if test (runJob env (job.code cfg) tr).2 then none
          else some (runJob env (job.code cfg) tr).2))
        (fs ++ [(runJob env (job.code cfg) tr).2]) (runJob env (job.code cfg) tr).1 := by
  have hget : ∀ r d : JobResult, (fs ++ [r]).getD fs.length d = r := by simp
  simp only [spawnAll, collect, perform, Program.request_bind, Program.ask_bind, Program.ret_bind,
    Program.pure_eq, run, hget]
  split_ifs <;> rfl

/-- The last steps of both, `COMMITTED` and a flush, do not look at the futures. -/
theorem run_committed (fs' : List JobResult) :
    run cfg env (.ask (.append ⟨.committed, T, []⟩) fun written =>
        if (!written) = true then .ret Status.writeFailed
        else .ask .flush fun flushed =>
          if (!flushed) = true then .ret Status.flushFailed else .ret .ok) fs tr =
      run cfg env (.ask (.append ⟨.committed, T, []⟩) fun written =>
        if (!written) = true then .ret Status.writeFailed
        else .ask .flush fun flushed =>
          if (!flushed) = true then .ret Status.flushFailed else .ret .ok) fs' tr := by
  simp only [run_append, Bool.not_true, Bool.false_eq_true, if_false, Bool.not_false, if_true,
    run_flush]
  split_ifs <;> rfl

theorem run_prepareOnShard (k : JobResult → Code α) :
    run cfg env (prepareOnShard cfg shard T ts >>= k) fs tr =
      run cfg env (k (runJob env (prepareOnShard cfg shard T ts) tr).2) fs
        (runJob env (prepareOnShard cfg shard T ts) tr).1 :=
  run_callUntilYes ..

theorem run_commitOnShard (k : JobResult → Code α) :
    run cfg env (commitOnShard cfg shard T ts >>= k) fs tr =
      run cfg env (k (runJob env (commitOnShard cfg shard T ts) tr).2) fs
        (runJob env (commitOnShard cfg shard T ts) tr).1 :=
  run_callUntilYes ..

/-- `PREPARING` is appended and flushed, so that the shard is asked for its vote. -/
def Asked (env : Behaviour) (T : RaftTxnId) (shard : ShardId) (tr : List TraceEvent) : Prop :=
  env tr (.append ⟨.preparing, T, [shard]⟩) = true ∧
    env (tr ++ [.record ⟨.preparing, T, [shard]⟩]) .flush = true

/-- `PrepareOnShard` ends in a commit vote. -/
def Votes (cfg : Config) (env : Behaviour) (T : RaftTxnId) (shard : ShardId) (ts : Timestamp)
    (tr : List TraceEvent) : Prop :=
  (runJob env (prepareOnShard cfg shard T ts)
    (tr ++ [.record ⟨.preparing, T, [shard]⟩])).2.voteCommit = true

/-- After a commit vote: the same calls, the same records, and success together. -/
theorem run_singleShardCommit (hvote : Asked env T shard tr → Votes cfg env T shard ts tr) :
    (run cfg env (singleShardCommit cfg T shard ts) [] tr).1 =
        (run cfg env (twoPhaseCommit T [shard] ts) [] tr).1 ∧
      ((run cfg env (singleShardCommit cfg T shard ts) [] tr).2.code = .ok ↔
        (run cfg env (twoPhaseCommit T [shard] ts) [] tr).2.code = .ok) := by
  -- equal runs are enough
  have hsame : ∀ {x y : List TraceEvent × Status}, x = y →
      x.1 = y.1 ∧ (x.2.code = .ok ↔ y.2.code = .ok) := by
    rintro x _ rfl
    exact ⟨rfl, Iff.rfl⟩
  simp only [singleShardCommit, twoPhaseCommit, appendWrite, perform, Program.request_bind,
    Program.pure_eq, List.map_cons, List.map_nil]
  rw [run_append, run_append]
  by_cases hprep : env tr (.append ⟨.preparing, T, [shard]⟩) = true
  · rw [if_pos hprep, if_pos hprep, if_neg (by decide), if_neg (by decide), run_flush, run_flush]
    by_cases hflush : env (tr ++ [.record ⟨.preparing, T, [shard]⟩]) .flush = true
    · have hv : (runJob env (prepareOnShard cfg shard T ts) _).2.voteCommit = true :=
        hvote ⟨hprep, hflush⟩
      have hok : (runJob env (prepareOnShard cfg shard T ts) _).2.ok = true :=
        prepareOnShard_voteCommit.symm.trans hv
      simp only [hflush, Bool.not_true, Bool.false_eq_true, if_false]
      rw [run_prepareOnShard, run_collect_one]
      simp only [Job.code, hok, hv, Bool.not_true, Bool.false_eq_true, if_false, if_true,
        Option.isSome_none]
      rw [run_append, run_append]
      generalize (runJob env (prepareOnShard cfg shard T ts) _).1 = tr1
      by_cases hcommitting : env tr1 (.append ⟨.committing, T, []⟩) = true
      · rw [if_pos hcommitting, if_pos hcommitting, if_neg (by decide), if_neg (by decide),
          run_commitOnShard, run_collect_one]
        simp only [Job.code]
        by_cases hc : (runJob env (commitOnShard cfg shard T ts)
            (tr1 ++ [.record ⟨.committing, T, []⟩])).2.ok = true
        · simp only [hc, Bool.not_true, Bool.false_eq_true, if_false, if_true, Option.isSome_none]
          exact hsame (run_committed _)
        · simp only [hc, Bool.not_false, if_true, Bool.false_eq_true, if_false, Option.isSome_some]
          exact ⟨rfl, by simp [run]⟩
      · rw [if_neg hcommitting, if_neg hcommitting]
        exact hsame rfl
    · rw [Bool.not_eq_true] at hflush
      rw [hflush]
      exact hsame rfl
  · rw [if_neg hprep, if_neg hprep]
    exact hsame rfl

/-- The loop sends nothing but its call. -/
theorem mem_untilYes {rpc : Rpc} {n : ℕ} {message : String} {x : TraceEvent}
    (hx : x ∈ (runJob env (untilYes shard rpc n message) tr).1) : x ∈ tr ∨ x = .rpc shard rpc := by
  induction n generalizing message tr with
  | zero => exact .inl hx
  | succ n ih =>
    have hsent : ∀ y ∈ tr ++ Request.trace (.call shard rpc) (env tr (.call shard rpc)),
        y ∈ tr ∨ y = .rpc shard rpc := by simp [Request.trace]
    simp only [untilYes, runJob] at hx
    split_ifs at hx
    · exact hsent x hx
    · exact hsent x hx
    · rcases ih hx with h | h
      · exact hsent x h
      · exact .inr h

/-- Without a commit vote the fast path ends, and has sent no `Abort`. -/
theorem abort_not_sent (hasked : Asked env T shard []) (hvote : ¬ Votes cfg env T shard ts []) :
    .rpc shard (.abort T) ∉ (run cfg env (singleShardCommit cfg T shard ts) [] []).1 := by
  have hok : (runJob env (prepareOnShard cfg shard T ts)
      [.record ⟨.preparing, T, [shard]⟩]).2.ok = false :=
    prepareOnShard_voteCommit.symm.trans (Bool.eq_false_iff.mpr hvote)
  simp only [singleShardCommit, appendWrite, perform, Program.request_bind, Program.pure_eq]
  rw [run_append, if_pos hasked.1, if_neg (by decide), run_flush, hasked.2, if_neg (by decide),
    run_prepareOnShard, List.nil_append, hok, if_pos (by decide), run]
  intro hmem
  unfold prepareOnShard callUntilYes at hmem
  split_ifs at hmem
  · rcases mem_untilYes hmem with h | h
    · simp at h
    · simp at h
  · simp [runJob] at hmem

end Runs

/-- **The fast path is two-phase commit with one participant**: the same calls and records, success
together, and where the shard was asked and `Prepare` did not end in a commit vote, an `Abort` was
sent and `ABORTED` was logged. -/
def FastPathAgrees (cfg : Config) (env : Behaviour) (T : RaftTxnId) (shard : ShardId)
    (ts : Timestamp) : Prop :=
  let single := run cfg env (singleShardCommit cfg T shard ts) [] []
  let double := run cfg env (twoPhaseCommit T [shard] ts) [] []
  single.1 = double.1 ∧ (single.2.code = .ok ↔ double.2.code = .ok) ∧
    (Asked env T shard [] → ¬ Votes cfg env T shard ts [] →
      .rpc shard (.abort T) ∈ single.1 ∧ .record ⟨.aborted, T, []⟩ ∈ single.1)

/-- **The fast path agrees with two-phase commit exactly if a shard that is asked votes to
commit**, for every behaviour of the shard and of the log file. -/
theorem fastPath_agrees_iff (cfg : Config) (env : Behaviour) (T : RaftTxnId) (shard : ShardId)
    (ts : Timestamp) :
    FastPathAgrees cfg env T shard ts ↔ (Asked env T shard [] → Votes cfg env T shard ts []) := by
  constructor
  · rintro ⟨-, -, haborted⟩ hasked
    by_contra hvote
    exact abort_not_sent hasked hvote (haborted hasked hvote).1
  · intro hvote
    obtain ⟨htrace, hok⟩ := run_singleShardCommit hvote
    exact ⟨htrace, hok, fun hasked hno => absurd (hvote hasked) hno⟩

/-- Everything succeeds, and a shard votes to commit. -/
def voteYes : Behaviour
  | _, .append _ => true
  | _, .flush => true
  | _, .call _ (.prepare _ _) => some (.prepare true "")
  | _, .call _ (.commit _ _) => some (.commit true "")
  | _, .call _ _ => none
  | _, .replay => []
  | _, .now => 0
  | _, .find _ => none
  | _, .take _ => none
  | _, .erase _ => ()
  | _, .addParticipant _ _ => ()
  | _, .spawn _ => 0
  | _, .get _ => ⟨false, false, .ok⟩
  | _, .join => ()
  | _, .orderShards shards => shards
  | _, .orderTxns txns => txns

/-- A shard whose validation fails votes to abort. -/
def voteNo : Behaviour
  | _, .call _ (.prepare _ _) => some (.prepare false "read validation failed")
  | _, .call _ (.abort _) => some (.abort true)
  | tr, e => voteYes tr e

/-- One shard at one address. -/
def oneShard : Config := ⟨1, fun _ => true, fun _ => 0⟩

/-- **A vote to abort is not followed up on the fast path**: two-phase commit sends an
`Abort` and logs `ABORTING` and `ABORTED`, `SingleShardCommit` does neither. -/
theorem singleShardCommit_forgets_abort :
    run oneShard voteNo (singleShardCommit oneShard 1 0 2) [] [] =
        ([.record ⟨.preparing, 1, [0]⟩, .rpc 0 (.prepare 1 2)],
          ⟨.ioError, "Prepare RPC failed"⟩) ∧
      run oneShard voteNo (twoPhaseCommit 1 [0] 2) [] [] =
        ([.record ⟨.preparing, 1, [0]⟩, .rpc 0 (.prepare 1 2), .record ⟨.aborting, 1, []⟩,
          .rpc 0 (.abort 1), .record ⟨.aborted, 1, []⟩], ⟨.conflict, "2PC prepare failed"⟩) := by
  decide +kernel

end TransDb.Coordinator
